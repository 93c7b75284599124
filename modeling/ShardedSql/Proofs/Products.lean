import ShardedSql.Proofs.Expansions
import ShardedSql.Proofs.Places
import ShardedSql.Template.Basic

/-! The texts of a template are the ordered product of what its placeholders expand to: one text for each
choice of a value for every placeholder, the choices in lexicographic order. -/

namespace ShardedSql

namespace Template

variable {vars : Bindings}

/-- The expressions of the placeholders, in order. -/
def expressions : List Segment → List Expr
  | [] => []
  | .text _ :: rest => expressions rest
  | .placeholder e :: rest => e :: expressions rest

/-- The segments come to the text, where each placeholder takes from its list the value at the chosen
place. -/
inductive Fills : List Segment → List (List Value) → List Nat → String → Prop
  | nil : Fills [] [] [] ""
  | text {rest : List Segment} {vss : List (List Value)} {p : List Nat} {w : String} (s : String)
      (h : Fills rest vss p w) : Fills (.text s :: rest) vss p (s ++ w)
  | placeholder {rest : List Segment} {vss : List (List Value)} {p : List Nat} {w : String} (e : Expr)
      {vs : List Value} {i : Nat} {v : Value} (hv : vs[i]? = some v) (h : Fills rest vss p w) :
      Fills (.placeholder e :: rest) (vs :: vss) (i :: p) (v.text ++ w)

/-- One text for each choice of a place within every list, in the lexicographic order of the choices. -/
def Enumerates (segments : List Segment) (vss : List (List Value)) (texts : List String) : Prop :=
  ∃ choices : List (List Nat), choices.Pairwise (· < ·) ∧
    (∀ p, p ∈ choices ↔ List.Forall₂ (fun i vs => i < vs.length) p vss) ∧
    List.Forall₂ (Fills segments vss) choices texts

/-- Before anything else fails, one of the expressions comes to too many values, or there are too many
choices of values for the expressions up to one of them; `count` choices came before them. -/
def Exceeds (vars : Bindings) (count : Nat) (es : List Expr) : Prop :=
  ∃ before e after vss, es = before ++ e :: after ∧ List.Forall₂ (Expr.Denotes vars) before vss ∧
    (e.Exceeds vars ∨
      ∃ vs, e.Denotes vars vs ∧ maxValues < count * ((vss ++ [vs]).map List.length).prod)

theorem exceeds_cons {count : Nat} {e : Expr} {es : List Expr} :
    Exceeds vars count (e :: es) ↔ e.Exceeds vars ∨ ∃ vs, e.Denotes vars vs ∧
      (maxValues < count * vs.length ∨ Exceeds vars (count * vs.length) es) := by
  constructor
  · rintro ⟨before, e', after, vss, hsplit, hbefore, hlast⟩
    cases hbefore with
    | nil =>
      cases hsplit
      refine hlast.imp_right fun ⟨vs, hvs, hlimit⟩ => ⟨vs, hvs, .inl ?_⟩
      simpa using hlimit
    | @cons b vs before vss hb hbefore =>
      cases hsplit
      refine .inr ⟨vs, hb, .inr ⟨before, e', after, vss, rfl, hbefore, ?_⟩⟩
      refine hlast.imp_right fun ⟨ws, hws, hlimit⟩ => ⟨ws, hws, ?_⟩
      simpa [Nat.mul_assoc] using hlimit
  · rintro (h | ⟨vs, hvs, hlimit | ⟨before, e', after, vss, rfl, hbefore, hlast⟩⟩)
    · exact ⟨[], e, es, [], rfl, .nil, .inl h⟩
    · exact ⟨[], e, es, [], rfl, .nil, .inr ⟨vs, hvs, by simpa using hlimit⟩⟩
    · refine ⟨e :: before, e', after, vs :: vss, rfl, .cons hvs hbefore, ?_⟩
      refine hlast.imp_right fun ⟨ws, hws, hlimit⟩ => ⟨ws, hws, ?_⟩
      simpa [Nat.mul_assoc] using hlimit

theorem length_extended {texts : List String} {vs : List Value} :
    (texts.flatMap fun t => vs.map fun v => t ++ v.text).length = texts.length * vs.length := by
  simp [List.length_flatMap]

theorem expandFrom_placeholder (texts : List String) (e : Expr) (rest : List Segment) :
    expandFrom vars texts (.placeholder e :: rest) = (e.expand vars >>= fun vs =>
      Expr.withinLimit (texts.length * vs.length) >>= fun _ =>
        expandFrom vars (texts.flatMap fun t => vs.map fun v => t ++ v.text) rest) := by
  rw [expandFrom]

/-! ### What an expansion gives -/

/-- What comes out continues every text before it in every way. -/
theorem fills_of_expandFrom {segments : List Segment} {texts result : List String}
    (h : expandFrom vars texts segments = .ok result) (hcount : texts.length ≤ maxValues) :
    ∃ vss words, List.Forall₂ (fun e vs => Expr.expand vars e = .ok vs) (expressions segments) vss ∧
      List.Forall₂ (Fills segments vss) (places vss) words ∧
      result = (texts.flatMap fun t => words.map fun w => t ++ w) ∧ result.length ≤ maxValues := by
  induction segments generalizing texts with
  | nil =>
    cases h
    exact ⟨[], [""], .nil, .cons .nil .nil, by simp, hcount⟩
  | cons segment rest ih =>
    cases segment with
    | text s =>
      obtain ⟨vss, words, hvss, hwords, rfl, hlimit⟩ := ih h (by simpa using hcount)
      refine ⟨vss, words.map (s ++ ·), hvss, ?_, ?_, hlimit⟩
      · rw [List.forall₂_map_right_iff]
        exact hwords.imp fun _ _ hw => .text s hw
      · simp [List.flatMap_map, Function.comp_def, String.append_assoc]
    | placeholder e =>
      rw [expandFrom_placeholder] at h
      obtain ⟨vs, hvs, h⟩ := bind_eq_ok.1 h
      obtain ⟨_, hproduct, h⟩ := bind_eq_ok.1 h
      rw [Expr.withinLimit_eq_ok, ← length_extended] at hproduct
      obtain ⟨vss, words, hvss, hwords, rfl, hlimit⟩ := ih h hproduct
      refine ⟨vs :: vss, vs.flatMap fun v => words.map (v.text ++ ·), ?_, ?_, ?_, hlimit⟩
      · exact .cons hvs hvss
      · refine List.rel_flatMap (forall₂_range vs) fun i v hv => ?_
        rw [List.forall₂_map_right_iff, List.forall₂_map_left_iff]
        exact hwords.imp fun _ _ hw => .placeholder e hv hw
      · simp [List.flatMap_assoc, List.flatMap_map, List.map_flatMap, Function.comp_def,
          String.append_assoc]

theorem exceeds_of_expandFrom {segments : List Segment} {texts : List String} {limit : Nat}
    (h : expandFrom vars texts segments = .error (.tooManyValues limit)) :
    Exceeds vars texts.length (expressions segments) := by
  induction segments generalizing texts with
  | nil => cases h
  | cons segment rest ih =>
    cases segment with
    | text s =>
      have hrest := ih h
      rwa [List.length_map] at hrest
    | placeholder e =>
      rw [expandFrom_placeholder] at h
      rw [expressions, exceeds_cons]
      obtain h | ⟨vs, hvs, h⟩ := bind_eq_error.1 h
      · exact .inl (Expr.exceeds_of_expand e h)
      refine .inr ⟨vs, (Expr.denotes_of_expand e hvs).1, ?_⟩
      obtain h | ⟨_, _, h⟩ := bind_eq_error.1 h
      · exact .inl (Expr.withinLimit_eq_error.1 h).1
      · rw [← length_extended]
        exact .inr (ih h)

/-! ### What gives an expansion -/

theorem yields_expandFrom {segments : List Segment} {vss : List (List Value)}
    (h : List.Forall₂ (Expr.Denotes vars) (expressions segments) vss) (texts : List String) :
    ∃ result, Expr.Yields (expandFrom vars texts segments) result := by
  induction segments generalizing vss texts with
  | nil => exact ⟨texts, .inl rfl⟩
  | cons segment rest ih =>
    cases segment with
    | text s => exact ih h (texts.map (· ++ s))
    | placeholder e =>
      cases h with
      | @cons _ vs _ _ hvs h =>
        obtain ⟨result, hresult⟩ := ih h (texts.flatMap fun t => vs.map fun v => t ++ v.text)
        refine ⟨result, ?_⟩
        rw [expandFrom_placeholder]
        exact (Expr.expand_of_denotes hvs).1.bind ((Expr.yields_withinLimit _).bind hresult)

theorem expandFrom_of_exceeds {segments : List Segment} {texts : List String}
    (h : Exceeds vars texts.length (expressions segments)) :
    expandFrom vars texts segments = .error (.tooManyValues maxValues) := by
  induction segments generalizing texts with
  | nil =>
    obtain ⟨before, e, after, vss, hsplit, -⟩ := h
    exact absurd hsplit (by simp [expressions])
  | cons segment rest ih =>
    cases segment with
    | text s =>
      rw [expandFrom]
      refine ih ?_
      rwa [List.length_map]
    | placeholder e =>
      rw [expandFrom_placeholder]
      obtain h | ⟨vs, hvs, h⟩ := exceeds_cons.1 h
      · rw [Expr.expand_of_exceeds h]
        rfl
      refine (Expr.expand_of_denotes hvs).1.fails ?_
      obtain h | h := h
      · rw [Expr.withinLimit_of_lt h]
        rfl
      · rw [← length_extended] at h
        exact (Expr.yields_withinLimit _).fails (ih h)

/-- A template that has one text expands to it. -/
theorem expandFrom_of_evaluate {segments : List Segment} {words : List String}
    (h : List.Forall₂ (fun segment w => Segment.evaluate vars segment = .ok w) segments words) (s : String) :
    expandFrom vars [s] segments = .ok [s ++ String.join words] := by
  induction h generalizing s with
  | nil => simp [expandFrom]
  | @cons segment w segments words hw _ ih =>
    rw [String.join_cons, ← String.append_assoc]
    cases segment with
    | text =>
      cases hw
      exact ih (s ++ w)
    | placeholder e =>
      obtain ⟨v, hv, hw⟩ := bind_eq_ok.1 hw
      cases hw
      rw [expandFrom_placeholder, Expr.expand_of_evaluate hv]
      exact ih (s ++ v.text)

end Template

open Template in
/-- An expression expands to what it stands for, which is never more than the limit, unless it comes to too
many values before anything else fails. The texts of a template are the ordered product of the expansions
of its placeholders, again unless an expansion or the product up to a placeholder is too large. A template
that has one text expands to just this one. -/
theorem expand_ordered_product (vars : Bindings) (t : Template) :
    (∀ e vs, Expr.expand vars e = .ok vs ↔ e.Denotes vars vs ∧ ¬ e.Exceeds vars) ∧
    (∀ e vs, Expr.expand vars e = .ok vs → vs.length ≤ maxValues) ∧
    (∀ e, Expr.expand vars e = .error (.tooManyValues maxValues) ↔ e.Exceeds vars) ∧
    ((∃ texts, t.expand vars = .ok texts) ↔
      (∃ vss, List.Forall₂ (Expr.Denotes vars) (expressions t.segments) vss) ∧
        ¬ Exceeds vars 1 (expressions t.segments)) ∧
    (∀ texts, t.expand vars = .ok texts →
      ∃ vss, List.Forall₂ (fun e vs => Expr.expand vars e = .ok vs) (expressions t.segments) vss ∧
        Enumerates t.segments vss texts ∧ texts.length = (vss.map List.length).prod ∧
        texts.length ≤ maxValues) ∧
    (t.expand vars = .error (.tooManyValues maxValues) ↔ Exceeds vars 1 (expressions t.segments)) ∧
    ∀ text, t.evaluate vars = .ok text → t.expand vars = .ok [text] := by
  have hone : [""].length ≤ maxValues := by decide
  have hexceeds : t.expand vars = .error (.tooManyValues maxValues) ↔
      Exceeds vars 1 (expressions t.segments) :=
    ⟨exceeds_of_expandFrom, fun h =>
      expandFrom_of_exceeds (show Exceeds vars [""].length (expressions t.segments) from h)⟩
  refine ⟨fun e vs => Expr.expand_eq_ok_iff, fun e vs h => (Expr.denotes_of_expand e h).2,
    fun e => Expr.expand_eq_error_iff, ?_, ?_, hexceeds, ?_⟩
  · constructor
    · rintro ⟨texts, h⟩
      obtain ⟨vss, -, hvss, -⟩ := fills_of_expandFrom h hone
      refine ⟨⟨vss, hvss.imp fun e vs hvs => (Expr.denotes_of_expand e hvs).1⟩, fun hlimit => ?_⟩
      rw [hexceeds.2 hlimit] at h
      cases h
    · rintro ⟨⟨vss, hvss⟩, hwithin⟩
      obtain ⟨texts, htexts⟩ := yields_expandFrom hvss [""]
      exact ⟨texts, htexts.resolve_right (mt hexceeds.1 hwithin)⟩
  · intro texts h
    obtain ⟨vss, words, hvss, hwords, hsame, hlimit⟩ := fills_of_expandFrom h hone
    have htexts : texts = words := by simpa using hsame
    rw [← htexts] at hwords
    refine ⟨vss, hvss, ⟨places vss, pairwise_places vss, fun p => mem_places, hwords⟩, ?_, hlimit⟩
    rw [← length_places, hwords.length_eq]
  · intro text h
    obtain ⟨words, hwords, h⟩ := bind_eq_ok.1 h
    cases h
    have hexpand := expandFrom_of_evaluate (mapM_eq_ok.1 hwords) ""
    rwa [String.empty_append] at hexpand

/-- Two tables in each of two sources. -/
def gridOfTables : Template where
  source := "ds_$\x7b0..1\x7d.t_$\x7b['a', 'b']\x7d"
  segments := [.text "ds_", .placeholder (.range (.literal (.int 0)) (.literal (.int 1))), .text ".t_",
    .placeholder (.list [.literal (.str "a"), .literal (.str "b")])]

def tableOfUser : Template where
  source := "t_$\x7buser % 2\x7d"
  segments := [.text "t_", .placeholder (.binary .rem (.var "user") (.literal (.int 2)))]

/-- The sources vary slower than their tables, and a single table is listed alone. -/
theorem expand_ordered_product_grid :
    (∃ vss texts, gridOfTables.expand .none = .ok texts ∧ Template.Enumerates gridOfTables.segments vss texts ∧
      texts.length = (vss.map List.length).prod ∧ texts = ["ds_0.t_a", "ds_0.t_b", "ds_1.t_a", "ds_1.t_b"]) ∧
    tableOfUser.expand (fun _ => some (.int 7)) = .ok ["t_1"] := by
  have htexts : gridOfTables.expand .none = .ok ["ds_0.t_a", "ds_0.t_b", "ds_1.t_a", "ds_1.t_b"] := by
    decide +kernel
  have htable : tableOfUser.evaluate (fun _ => some (.int 7)) = .ok "t_1" := by decide +kernel
  obtain ⟨-, -, -, -, hlists, -⟩ := expand_ordered_product .none gridOfTables
  obtain ⟨-, -, -, -, -, -, hone⟩ := expand_ordered_product (fun _ => some (.int 7)) tableOfUser
  obtain ⟨vss, -, hall, hlength, -⟩ := hlists _ htexts
  exact ⟨⟨vss, _, htexts, hall, hlength, rfl⟩, hone _ htable⟩

end ShardedSql
