import ShardedSql.Proofs.Cuts
import ShardedSql.Proofs.Where

/-! The predicates of a group may come in any order. What the entries of a condition demand is a function
of the columns, narrowing changes this function at one column, and two narrowings exchanged leave the same
demands, but for the order and the repetitions of listed values. -/

namespace ShardedSql

open Text (sameName)

/-- The entry is about the column, up to the case of ASCII letters. -/
def ColumnConstraint.about (e : ColumnConstraint) (table column : String) : Bool :=
  sameName e.table table && sameName e.column column

namespace ColumnConstraint

variable {e d : ColumnConstraint} {table column : String}

end ColumnConstraint

/-- What is demanded of the columns of the tables; names count up to the case of ASCII letters. -/
@[ext]
structure Demand where
  of? : String → String → Option Constraint
  same : ∀ {t t' c c'}, sameName t t' = true → sameName c c' = true → of? t c = of? t' c'

/-- A demand that comes on top of another one. -/
def Constraint.meet (k : Constraint) : Option Constraint → Option Constraint
  | none => some k
  | some l => l.intersect k

namespace Demand

/-- Another demand of the column of an entry. -/
def set (f : Demand) (e : ColumnConstraint) (k : Constraint) : Demand where
  of? table column := if e.about table column then some k else f.of? table column
  same ht hc := by
    rw [ColumnConstraint.about, ColumnConstraint.about, Text.sameName_congr_right ht,
      Text.sameName_congr_right hc, f.same ht hc]

/-- The demands with one more entry, unless nothing is left of its column. -/
def narrow (f : Demand) (e : ColumnConstraint) : Option Demand :=
  (e.constraint.meet (f.of? e.table e.column)).map (f.set e)

variable {f : Demand} {e d : ColumnConstraint} {k l : Constraint}

end Demand

/-- What a condition demands of a column. -/
def Condition.demands (c : Condition) : Demand where
  of? table column := (c.find? table column).map (·.constraint)
  same ht hc := by simp only [find?, Text.sameName_congr_right ht, Text.sameName_congr_right hc]

namespace Extraction

end Extraction

section Relations

variable {α β : Type} {R : α → α → Prop} {S : β → β → Prop}

theorem rel_trans (hR : ∀ {a b c}, R a b → R b c → R a c) {x y z : Option α} (h : Option.Rel R x y)
    (h' : Option.Rel R y z) : Option.Rel R x z := by
  cases h with
  | none => exact h'
  | some hab =>
    cases h' with
    | some hbc => exact .some (hR hab hbc)

theorem rel_symm (hR : ∀ {a b}, R a b → R b a) {x y : Option α} (h : Option.Rel R x y) :
    Option.Rel R y x := by
  cases h with
  | none => exact .none
  | some hab => exact .some (hR hab)

/-- Where every member has a partner among none, there is no member. -/
theorem eq_nil_of_covered {P : α → β → Prop} {l : List α} {r : List β} (h : ∀ a ∈ l, ∃ b ∈ r, P a b)
    (hr : r = []) : l = [] := by
  refine List.eq_nil_iff_forall_not_mem.2 fun a ha => ?_
  obtain ⟨b, hb, -⟩ := h a ha
  rw [hr] at hb
  exact List.not_mem_nil hb

end Relations

namespace Constraint

end Constraint

namespace Demand

/-- Demands that are one but perhaps for the order and the repetitions of listed values. -/
def Alike (f g : Demand) : Prop :=
  ∀ table column, Option.Rel Constraint.Alike (f.of? table column) (g.of? table column)

variable {f g h : Demand}

theorem Alike.refl (f : Demand) : f.Alike f := fun _ _ => Constraint.alike_refl _

theorem Alike.symm (hfg : f.Alike g) : g.Alike f := fun table column =>
  rel_symm Constraint.Alike.symm (hfg table column)

theorem Alike.trans (hfg : f.Alike g) (hgh : g.Alike h) : f.Alike h := fun table column =>
  rel_trans (R := Constraint.Alike) Constraint.Alike.trans (hfg table column) (hgh table column)

end Demand

namespace Extraction

variable {rule : ShardingRule} {params : List Value}

/-- The entry that a predicate asks for, if it is on a sharding column and its operands are there. -/
def asked (rule : ShardingRule) (params : List Value) (p : Predicate) : Option ColumnConstraint :=
  if rule.isShardingColumn p.table p.column then
    (constraint params p.comparison).toOption.map (⟨p.table, p.column, ·⟩)
  else none

/-- What an outcome demands, unless it is a contradiction. -/
def Outcome.demands : Outcome → Option Demand
  | .alternative c => some c.demands
  | .unconstrained => some (Condition.mk []).demands
  | .contradiction => none

end Extraction

/-- Every alternative has its like on the other side, and both or neither are contradictory. -/
structure Conditions.Alike (c d : Conditions) : Prop where
  alwaysFalse : c.alwaysFalse = d.alwaysFalse
  left : ∀ k ∈ c.alternatives, ∃ l ∈ d.alternatives, k.demands.Alike l.demands
  right : ∀ l ∈ d.alternatives, ∃ k ∈ c.alternatives, l.demands.Alike k.demands

namespace Conditions.Alike

variable {c d : Conditions}

theorem symm (h : c.Alike d) : d.Alike c := ⟨h.alwaysFalse.symm, h.right, h.left⟩

theorem isEmpty (h : c.Alike d) : c.isEmpty = d.isEmpty := by
  rw [Bool.eq_iff_iff, Conditions.isEmpty, Conditions.isEmpty, List.isEmpty_iff, List.isEmpty_iff]
  exact ⟨eq_nil_of_covered h.right, eq_nil_of_covered h.left⟩

end Conditions.Alike

end ShardedSql
