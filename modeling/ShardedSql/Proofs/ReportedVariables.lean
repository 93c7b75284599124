import ShardedSql.Proofs.Bindings
import ShardedSql.Proofs.Expansions

/-! A template depends on its bindings through the variables that it reports, in what it evaluates to and in
what it expands to. Expansion goes down the tree along with evaluation, from which it takes the ends of its
ranges and its single values. -/

namespace ShardedSql

open Bindings (AgreeOn agreeOn_append)

namespace Expr

variable {vars vars' : Bindings} {lacking : String → Prop}

mutual

theorem expand_same (e : Expr) (h : AgreeOn lacking vars vars' e.varNames) :
    SameUnless lacking (expand vars e) (expand vars' e) := by
  have hsingle : e.isMany = false → SameUnless lacking (expand vars e) (expand vars' e) := by
    intro hmany
    rw [expand_of_not_isMany hmany, expand_of_not_isMany hmany]
    exact (evaluate_same e h).bind fun v => .refl _
  cases e with
  | range first last =>
    rw [varNames, agreeOn_append] at h
    rw [expand_range, expand_range]
    refine (evaluate_same first h.1).bind fun v => (SameUnless.refl (rangeEnd v)).bind fun a => ?_
    exact (evaluate_same last h.2).bind fun w => .refl _
  | list es =>
    rw [expand, expand]
    exact expandAll_same es h 0
  | binary op left right =>
    cases op with
    | add =>
      rw [varNames, agreeOn_append] at h
      rw [expand_sum, expand_sum]
      exact (expand_same left h.1).bind fun xs => (expand_same right h.2).bind fun ys => .refl _
    | _ => exact hsingle rfl
  | _ => exact hsingle rfl

theorem expandAll_same (es : List Expr) (h : AgreeOn lacking vars vars' (varNamesAll es)) (count : Nat) :
    SameUnless lacking (expandAll vars count es) (expandAll vars' count es) := by
  cases es with
  | nil => exact .refl _
  | cons e es =>
    rw [varNamesAll, agreeOn_append] at h
    rw [expandAll_cons, expandAll_cons]
    refine (expand_same e h.1).bind fun vs => (SameUnless.refl (withinLimit _)).bind fun _ => ?_
    exact (expandAll_same es h.2 _).bind fun ws => .refl _

end

end Expr

namespace Template

variable {vars vars' : Bindings} {lacking : String → Prop} {t : Template}

theorem expandFrom_same {segments : List Segment}
    (h : ∀ e, .placeholder e ∈ segments → AgreeOn lacking vars vars' e.varNames) (texts : List String) :
    SameUnless lacking (expandFrom vars texts segments) (expandFrom vars' texts segments) := by
  induction segments generalizing texts with
  | nil => exact .refl _
  | cons segment rest ih =>
    have hrest := ih fun e he => h e (List.mem_cons_of_mem _ he)
    cases segment with
    | text s => exact hrest _
    | placeholder e =>
      rw [expandFrom, expandFrom]
      refine (Expr.expand_same e (h e List.mem_cons_self)).bind fun vs => ?_
      exact (SameUnless.refl (Expr.withinLimit _)).bind fun _ => hrest _

theorem expand_same (h : AgreeOn lacking vars vars' t.varNames) :
    SameUnless lacking (t.expand vars) (t.expand vars') :=
  expandFrom_same (fun _ he => h.subset (varNames_subset he)) _

/-- A column that a template does not refer to makes no difference to it, so its values cannot be told apart
by their targets. -/
theorem target_unreferenced {column : String} (h : t.references column = false) (columns : String)
    (v w : Value) :
    Inline.target t columns (Inline.bind column v) = Inline.target t columns (Inline.bind column w) := by
  have hagree : AgreeOn (fun _ => False) (Inline.bind column v) (Inline.bind column w) t.varNames := by
    intro name hname
    have hother : name ≠ column := by
      rintro rfl
      rw [references, List.contains_iff_mem.2 hname] at h
      cases h
    exact .inl (by rw [Inline.bind, Inline.bind, if_neg hother, if_neg hother])
  rw [Inline.target, Inline.target, (evaluate_same hagree).eq]

/-- The template reports the variable, and only the second bindings have it. -/
def Gains (t : Template) (vars vars' : Bindings) (name : String) : Prop :=
  name ∈ t.varNames ∧ vars name = .none ∧ vars' name ≠ .none

end Template

/-- Bindings that have the same values for the variables that a template reports give it the same text and
the same expansion, or the same failures. Bindings that extend others give the same text and the same
expansion, or the same failures, as those do, unless these failed for a variable which the template reports
and only the extension has. -/
theorem reported_variables_decide (t : Template) (vars vars' : Bindings) :
    ((∀ name ∈ t.varNames, vars name = vars' name) →
      t.evaluate vars = t.evaluate vars' ∧ t.expand vars = t.expand vars') ∧
    (vars.Extends vars' →
      SameUnless (t.Gains vars vars') (t.evaluate vars) (t.evaluate vars') ∧
        SameUnless (t.Gains vars vars') (t.expand vars) (t.expand vars')) := by
  constructor
  · intro hsame
    have hagree : AgreeOn (fun _ => False) vars vars' t.varNames := fun name hname => .inl (hsame name hname)
    exact ⟨(Template.evaluate_same hagree).eq, (Template.expand_same hagree).eq⟩
  · intro hextends
    have hagree : AgreeOn (t.Gains vars vars') vars vars' t.varNames :=
      hextends.agreeOn fun name hname hnone hsome => ⟨hname, hnone, hsome⟩
    exact ⟨Template.evaluate_same hagree, Template.expand_same hagree⟩

section Years

open ComplexInlineAlgorithm (bindings)

/-- The tables of two years, which are kept by region for some customers only. -/
def tablesOfYears : Template where
  source := "t_$\x7bvip ? region + '_' : ''\x7d$\x7b[year, year + 1]\x7d"
  segments := [.text "t_",
    .placeholder (.conditional (.var "vip") (.binary .add (.var "region") (.literal (.str "_")))
      (.literal (.str ""))),
    .placeholder (.list [.var "year", .binary .add (.var "year") (.literal (.int 1))])]

def customer : List (String × Value) := [("vip", .bool false), ("year", .int 2024)]

/-- A shop is nothing to the template, and the region of this customer is not asked for. That there are two
tables stays a failure where there can be one text only. -/
theorem reported_variables_decide_years :
    (∀ name ∈ tablesOfYears.varNames,
        bindings customer name = bindings (customer ++ [("shop", .int 7)]) name) ∧
      (bindings customer).Extends (bindings (customer ++ [("region", .str "eu")])) ∧
      tablesOfYears.expand (bindings (customer ++ [("shop", .int 7)])) = .ok ["t_2024", "t_2025"] ∧
      tablesOfYears.expand (bindings (customer ++ [("region", .str "eu")])) = .ok ["t_2024", "t_2025"] ∧
      tablesOfYears.evaluate (bindings (customer ++ [("region", .str "eu")])) = .error .notScalar := by
  have hagree : ∀ name ∈ tablesOfYears.varNames,
      bindings customer name = bindings (customer ++ [("shop", .int 7)]) name := by decide +kernel
  have hextends : (bindings customer).Extends (bindings (customer ++ [("region", .str "eu")])) := by
    intro name v hv
    rw [bindings, List.lookup_append, show customer.lookup name = some v from hv, Option.some_or]
  have hexpand : tablesOfYears.expand (bindings customer) = .ok ["t_2024", "t_2025"] := by decide +kernel
  have hevaluate : tablesOfYears.evaluate (bindings customer) = .error .notScalar := by decide +kernel
  obtain ⟨hshop, -⟩ := reported_variables_decide tablesOfYears (bindings customer)
    (bindings (customer ++ [("shop", .int 7)]))
  obtain ⟨-, hregion⟩ := reported_variables_decide tablesOfYears (bindings customer)
    (bindings (customer ++ [("region", .str "eu")]))
  obtain ⟨hevaluated, hexpanded⟩ := hregion hextends
  rw [hevaluate] at hevaluated
  rw [hexpand] at hexpanded
  refine ⟨hagree, hextends, (hshop hagree).2.symm.trans hexpand, hexpanded.ok rfl, ?_⟩
  rcases hevaluated with hsame | ⟨name, -, hfailed⟩
  · exact hsame.symm
  · cases hfailed

end Years

end ShardedSql
