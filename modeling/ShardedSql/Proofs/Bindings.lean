import ShardedSql.Algorithm.Inline
import ShardedSql.Proofs.NameMaps
import ShardedSql.Proofs.Success

/-! Evaluation reads no variables but those that are reported, and more bindings never change an answer:
an expression has the same result where its variables have the same values, and where they have more values
unless it lacked one of these before. So a template that names a target from some of the columns names the
same target from all of them. -/

namespace ShardedSql

/-- The results are the same, unless the first one is that a variable is unknown which may be lacking. -/
def SameUnless {α : Type} (lacking : String → Prop) (x y : Except ExprError α) : Prop :=
  x = y ∨ ∃ name, lacking name ∧ x = .error (.unknownVariable name)

namespace SameUnless

variable {α β : Type} {lacking : String → Prop}

theorem refl (x : Except ExprError α) : SameUnless lacking x x := .inl rfl

theorem bind {x y : Except ExprError α} {f g : α → Except ExprError β} (h : SameUnless lacking x y)
    (hf : ∀ a, SameUnless lacking (f a) (g a)) : SameUnless lacking (x >>= f) (y >>= g) := by
  rcases h with rfl | ⟨name, hname, rfl⟩
  · cases x with
    | error e => exact refl _
    | ok a => exact hf a
  · exact .inr ⟨name, hname, rfl⟩

theorem mapM {f g : α → Except ExprError β} {l : List α}
    (hf : ∀ a ∈ l, SameUnless lacking (f a) (g a)) : SameUnless lacking (l.mapM f) (l.mapM g) := by
  induction l with
  | nil => exact refl _
  | cons a l ih =>
    obtain ⟨ha, hl⟩ := List.forall_mem_cons.1 hf
    rw [List.mapM_cons, List.mapM_cons]
    exact ha.bind fun b => (ih hl).bind fun bs => refl _

theorem ok {x y : Except ExprError α} {a : α} (h : SameUnless lacking x y) (hx : x = .ok a) :
    y = .ok a := by
  rcases h with rfl | ⟨name, -, rfl⟩
  · exact hx
  · cases hx

/-- Where nothing may be lacking the results are the same. -/
theorem eq {x y : Except ExprError α} (h : SameUnless (fun _ => False) x y) : x = y :=
  h.resolve_right fun ⟨_, hname, _⟩ => hname

end SameUnless

namespace Bindings

variable {vars vars' : Bindings} {lacking : String → Prop} {names names' : List String}

/-- Every variable of the first has the same value in the second. -/
def Extends (vars vars' : Bindings) : Prop :=
  ∀ name v, vars name = some v → vars' name = some v

/-- The names have the same values in both, apart from those that the first does not have and may lack. -/
def AgreeOn (lacking : String → Prop) (vars vars' : Bindings) (names : List String) : Prop :=
  ∀ name ∈ names, vars name = vars' name ∨ lacking name ∧ vars name = .none

theorem agreeOn_append : AgreeOn lacking vars vars' (names ++ names') ↔
    AgreeOn lacking vars vars' names ∧ AgreeOn lacking vars vars' names' :=
  List.forall_mem_append

theorem AgreeOn.subset (h : AgreeOn lacking vars vars' names) (hsub : names' ⊆ names) :
    AgreeOn lacking vars vars' names' := fun name hname => h name (hsub hname)

/-- Of the names of an extension only those may be lacking that it adds. -/
theorem Extends.agreeOn (h : vars.Extends vars')
    (hadded : ∀ name ∈ names, vars name = .none → vars' name ≠ .none → lacking name) :
    AgreeOn lacking vars vars' names := by
  intro name hname
  cases hv : vars name with
  | some v => exact .inl (h name v hv).symm
  | none =>
    by_cases hv' : vars' name = .none
    · exact .inl hv'.symm
    · exact .inr ⟨hadded name hname hv hv', rfl⟩

end Bindings

open Bindings (AgreeOn agreeOn_append)

namespace Expr

variable {vars vars' : Bindings} {lacking : String → Prop}

theorem lookup_same {name : String} (h : AgreeOn lacking vars vars' [name]) :
    SameUnless lacking (lookup vars name) (lookup vars' name) := by
  unfold lookup
  rcases h name (List.mem_singleton_self name) with hsame | ⟨hname, hnone⟩
  · rw [hsame]
    exact .refl _
  · rw [hnone]
    exact .inr ⟨name, hname, rfl⟩

mutual

theorem evaluate_same (e : Expr) (h : AgreeOn lacking vars vars' e.varNames) :
    SameUnless lacking (evaluate vars e) (evaluate vars' e) := by
  cases e with
  | literal v => exact .refl _
  | var name =>
    rw [evaluate, evaluate]
    exact lookup_same h
  | unary op e =>
    rw [evaluate, evaluate]
    exact (evaluate_same e h).bind fun v => .refl _
  | binary op a b =>
    rw [varNames, agreeOn_append] at h
    have ha := evaluate_same a h.1
    have hb := evaluate_same b h.2
    cases op
    case and =>
      rw [evaluate, evaluate]
      refine ha.bind fun v => ?_
      split
      · exact hb.bind fun w => .refl _
      · exact .refl _
    case or =>
      rw [evaluate, evaluate]
      refine ha.bind fun v => ?_
      split
      · exact .refl _
      · exact hb.bind fun w => .refl _
    all_goals
      simp only [evaluate]
      exact ha.bind fun v => hb.bind fun w => .refl _
  | conditional c a b =>
    rw [varNames, agreeOn_append, agreeOn_append] at h
    obtain ⟨⟨hc, ha⟩, hb⟩ := h
    rw [evaluate, evaluate]
    refine (evaluate_same c hc).bind fun v => ?_
    split
    · exact evaluate_same a ha
    · exact evaluate_same b hb
  | call name es =>
    rw [evaluate, evaluate]
    exact (evaluateAll_same es h).bind fun vs => .refl _
  | range a b => exact .inl (by rw [evaluate, evaluate])
  | list es => exact .inl (by rw [evaluate, evaluate])

theorem evaluateAll_same (es : List Expr) (h : AgreeOn lacking vars vars' (varNamesAll es)) :
    SameUnless lacking (evaluateAll vars es) (evaluateAll vars' es) := by
  cases es with
  | nil => exact .refl _
  | cons e es =>
    rw [varNamesAll, agreeOn_append] at h
    rw [evaluateAll, evaluateAll]
    exact (evaluate_same e h.1).bind fun v => (evaluateAll_same es h.2).bind fun vs => .refl _

end

end Expr

namespace Template

variable {vars vars' : Bindings} {lacking : String → Prop} {t : Template}

theorem varNames_subset {e : Expr} (he : .placeholder e ∈ t.segments) : e.varNames ⊆ t.varNames :=
  fun _ hname => mem_sortNames.2 (List.mem_flatMap.2 ⟨_, he, hname⟩)

theorem evaluate_same (h : AgreeOn lacking vars vars' t.varNames) :
    SameUnless lacking (t.evaluate vars) (t.evaluate vars') := by
  have hsegment : ∀ s ∈ t.segments,
      SameUnless lacking (Segment.evaluate vars s) (Segment.evaluate vars' s) := by
    intro s hs
    cases s with
    | text s => exact .refl _
    | placeholder e =>
      exact (Expr.evaluate_same e (h.subset (varNames_subset hs))).bind fun v => .refl _
  exact (SameUnless.mapM hsegment).bind fun texts => .refl _

end Template

/-- A target named from some columns is the one named from all of them. -/
theorem Inline.target_extends {vars vars' : Bindings} (h : vars.Extends vars') {t : Template}
    {columns columns' name : String} (ht : Inline.target t columns vars = .ok name) :
    Inline.target t columns' vars' = .ok name := by
  unfold Inline.target at ht ⊢
  have hs : SameUnless (fun _ => True) (t.evaluate vars) (t.evaluate vars') :=
    Template.evaluate_same (h.agreeOn fun _ _ _ _ => trivial)
  cases hv : t.evaluate vars with
  | ok name' =>
    rw [hv] at ht
    rw [hs.ok hv]
    exact ht
  | error e =>
    rw [hv] at ht
    cases e <;> cases ht

end ShardedSql
