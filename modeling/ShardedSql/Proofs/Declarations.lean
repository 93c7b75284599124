import ShardedSql.Algorithm.Registry
import ShardedSql.Proofs.NameMaps
import ShardedSql.Proofs.Success
import ShardedSql.Rule.Strategy
import Mathlib.Data.List.TakeWhile

/-! Which algorithm declarations can be built: the tag names a built-in algorithm, and the options are
what that algorithm asks for. Of a built sharding algorithm a strategy asks only which columns it takes. -/

namespace ShardedSql

theorem Text.trim_eq_empty {s : String} : trim s = "" ↔ blank s = true := by
  rw [trim, blank, ← String.toList_eq_nil_iff, String.toList_ofList, trimChars, List.reverse_eq_nil_iff,
    List.dropWhile_eq_nil_iff, List.all_eq_true]
  simp only [List.mem_reverse]
  constructor
  · intro h c hc
    rw [← List.takeWhile_append_dropWhile (p := isBlank) (l := s.toList), List.mem_append] at hc
    exact hc.elim (List.all_eq_true.1 List.all_takeWhile c) (h c)
  · exact fun h c hc => h c ((List.dropWhile_sublist _).subset hc)

namespace Options

variable {options : Options} {option name : String}

/-- The option holds the text of a template. -/
def HoldsTemplate (options : Options) (option : String) : Prop :=
  ∃ raw t, options.get? option = some raw ∧ Text.blank raw = false ∧ Template.parse (Text.trim raw) = .ok t

/-- The option, if there, is `true` or `false` in any case of its letters. -/
def AllowsFlag (options : Options) (option : String) : Prop :=
  ∀ raw, options.get? option = some raw →
    Text.sameName (Text.trim raw) "true" = true ∨ Text.sameName (Text.trim raw) "false" = true

/-- The option holds a positive number of 64 bits. -/
def HoldsPositive (options : Options) (option : String) : Prop :=
  ∃ raw n, options.get? option = some raw ∧ Text.int64? (Text.trim raw) = some n ∧ 0 < n.toInt

/-- The option, if there, holds a number of 64 bits. -/
def AllowsInteger (options : Options) (option : String) : Prop :=
  ∀ raw, options.get? option = some raw → ∃ n, Text.int64? (Text.trim raw) = some n

namespace Reader

theorem present?_eq_some {r : Reader} {value : String} : r.present? option = some value ↔
    ∃ raw, r.options.get? option = some raw ∧ Text.blank raw = false ∧ Text.trim raw = value := by
  rw [present?, Option.filter_eq_some_iff, Option.map_eq_some_iff]
  constructor
  · rintro ⟨⟨raw, hraw, rfl⟩, hne⟩
    rw [Bool.not_eq_true', String.isEmpty_eq_false_iff, ne_eq, Text.trim_eq_empty] at hne
    exact ⟨raw, hraw, Bool.eq_false_iff.2 hne, rfl⟩
  · rintro ⟨raw, hraw, hblank, rfl⟩
    refine ⟨⟨raw, hraw, rfl⟩, ?_⟩
    rw [Bool.not_eq_true', String.isEmpty_eq_false_iff, ne_eq, Text.trim_eq_empty, hblank]
    exact Bool.false_ne_true

theorem required_eq_ok {r : Reader} {value : String} :
    r.required option = .ok value ↔ r.present? option = some value := by
  unfold required
  cases r.present? option <;> simp [fail]

theorem parseTemplate_eq_ok {r : Reader} {raw : String} {t : Template} :
    Inline.parseTemplate r raw = .ok t ↔ Template.parse raw = .ok t := by
  unfold Inline.parseTemplate
  cases Template.parse raw <;> simp [fail]

theorem exists_required_template :
    (∃ value t, Reader.required ⟨name, options⟩ option = .ok value ∧
      Inline.parseTemplate ⟨name, options⟩ value = .ok t) ↔ options.HoldsTemplate option := by
  simp only [required_eq_ok, parseTemplate_eq_ok, present?_eq_some]
  constructor
  · rintro ⟨_, t, ⟨raw, hraw, hblank, rfl⟩, ht⟩
    exact ⟨raw, t, hraw, hblank, ht⟩
  · rintro ⟨raw, t, hraw, hblank, ht⟩
    exact ⟨_, t, ⟨raw, hraw, hblank, rfl⟩, ht⟩

theorem exists_boolean {default : Bool} :
    (∃ b, boolean ⟨name, options⟩ option default = .ok b) ↔ options.AllowsFlag option := by
  unfold boolean AllowsFlag
  cases options.get? option with
  | none => simp
  | some raw =>
    dsimp only
    split
    · simp_all
    · split <;> simp_all [fail]

theorem exists_positive :
    (∃ n, positive ⟨name, options⟩ option = .ok n) ↔ options.HoldsPositive option := by
  have hcount : ∀ value, 0 < ((Text.int64? value).map (·.toInt.toNat)).getD 0 ↔
      ∃ n, Text.int64? value = some n ∧ 0 < n.toInt := by
    intro value
    cases Text.int64? value with
    | none => simp
    | some n =>
      simp only [Option.map_some, Option.getD_some, Option.some.injEq, exists_eq_left', Int.lt_toNat,
        Int.natCast_zero]
  have hchecked : ∀ value n, (if h : 0 < n then Except.ok (⟨n, h⟩ : { n : Nat // 0 < n })
      else Reader.fail ⟨name, options⟩ (.notPositive option)) = .ok value → 0 < n := by
    intro value n h
    split at h
    · assumption
    · cases h
  unfold positive
  simp only [bind_eq_ok, required_eq_ok, present?_eq_some]
  constructor
  · rintro ⟨n, _, ⟨raw, hraw, -, rfl⟩, hn⟩
    obtain ⟨m, hm, hpos⟩ := (hcount _).1 (hchecked _ _ hn)
    exact ⟨raw, m, hraw, hm, hpos⟩
  · rintro ⟨raw, m, hraw, hm, hpos⟩
    have hblank : Text.blank raw = false := by
      rw [← Bool.not_eq_true, ← Text.trim_eq_empty]
      intro hempty
      rw [hempty] at hm
      cases hm
    exact ⟨_, _, ⟨raw, hraw, hblank, rfl⟩, dif_pos ((hcount _).2 ⟨m, hm, hpos⟩)⟩

theorem exists_integer (name : String) (default : Int64) :
    (∃ n, integer ⟨name, options⟩ option default = .ok n) ↔ options.AllowsInteger option := by
  unfold integer AllowsInteger
  cases options.get? option with
  | none => simp
  | some raw => cases hn : Text.int64? (Text.trim raw) <;> simp [hn, fail]

end Reader

/-- The option, if there and not blank, holds the text of a template. -/
def AllowsTemplate (options : Options) (option : String) : Prop :=
  ∀ raw, options.get? option = some raw → Text.blank raw = false →
    ∃ t, Template.parse (Text.trim raw) = .ok t

end Options

/-- What a strategy asks of its columns: just one, at least one, or nothing. -/
inductive Shape where
  | standard | complex | hint

def Shape.Accepts : Shape → Nat → Prop
  | standard, columns => columns = 1
  | complex, columns => 0 < columns
  | hint, _ => True

namespace Algorithm

def shape : Algorithm → Shape
  | standard _ => .standard
  | complex _ => .complex
  | hint _ => .hint

theorem exists_strategy {a : Algorithm} {columns : List String} :
    (∃ s, Strategy.build columns a = .ok s) ↔ a.shape.Accepts columns.length := by
  cases a with
  | standard a =>
    rcases columns with _ | ⟨column, _ | ⟨other, rest⟩⟩ <;> simp [shape, Shape.Accepts, Strategy.build]
  | complex a =>
    rw [shape, Shape.Accepts, Strategy.build]
    cases columns <;> simp
  | hint a => exact iff_of_true ⟨_, rfl⟩ trivial

end Algorithm

namespace AlgorithmSpec

open Registry (key construct builtin)

variable {s : AlgorithmSpec}

/-- The declarations of sharding algorithms, by their shapes. -/
inductive DeclaresSharding (s : AlgorithmSpec) : Shape → Prop
  | inline (tag : key s.tag = InlineAlgorithm.tag)
      (template : s.options.HoldsTemplate Inline.expressionOption)
      (ranges : s.options.AllowsFlag Inline.rangeOption) : DeclaresSharding s .standard
  | complexInline (tag : key s.tag = ComplexInlineAlgorithm.tag)
      (template : s.options.HoldsTemplate Inline.expressionOption)
      (ranges : s.options.AllowsFlag Inline.rangeOption) : DeclaresSharding s .complex
  | hintInline (tag : key s.tag = HintInlineAlgorithm.tag)
      (template : s.options.AllowsTemplate Inline.expressionOption) : DeclaresSharding s .hint
  | modulo (tag : key s.tag = Modulo.tag ∨ key s.tag = Modulo.hashTag)
      (count : s.options.HoldsPositive Modulo.countOption) : DeclaresSharding s .standard

/-- The declarations of key generators. -/
def DeclaresGenerator (s : AlgorithmSpec) : Prop :=
  key s.tag = KeyGenerator.tag ∧ s.options.AllowsInteger KeyGenerator.startOption

/-- The declarations of auditors. -/
def DeclaresAuditor (s : AlgorithmSpec) : Prop := key s.tag = Auditor.tag

theorem construct_eq_ok {α : Type} {m : NameMap (Constructor α)} {a : α} :
    construct m s = .ok a ↔ ∃ c, m.get? (key s.tag) = some c ∧ c s.options = .ok a := by
  unfold construct
  cases m.get? (key s.tag) <;> simp

open Options.Reader in
/-- Both algorithms over columns read a template and a flag, whatever they make of them. -/
theorem exists_columnInline {α : Type} (name : String) (options : Options) (f : Template → Bool → α) :
    (∃ a, (required ⟨name, options⟩ Inline.expressionOption >>= fun raw =>
        Inline.parseTemplate ⟨name, options⟩ raw >>= fun t =>
        boolean ⟨name, options⟩ Inline.rangeOption false >>= fun b => Except.ok (f t b)) = .ok a) ↔
      options.HoldsTemplate Inline.expressionOption ∧ options.AllowsFlag Inline.rangeOption := by
  rw [← exists_required_template, ← exists_boolean]
  simp only [exists_bind_eq_ok]
  constructor
  · rintro ⟨value, hvalue, t, ht, b, hb, -⟩
    exact ⟨⟨value, t, hvalue, ht⟩, b, hb⟩
  · rintro ⟨⟨value, t, hvalue, ht⟩, b, hb⟩
    exact ⟨value, hvalue, t, ht, b, hb, _, rfl⟩

theorem exists_inline {options : Options} : (∃ a, InlineAlgorithm.build options = .ok a) ↔
    options.HoldsTemplate Inline.expressionOption ∧ options.AllowsFlag Inline.rangeOption :=
  exists_columnInline InlineAlgorithm.tag options InlineAlgorithm.mk

theorem exists_complexInline {options : Options} : (∃ a, ComplexInlineAlgorithm.build options = .ok a) ↔
    options.HoldsTemplate Inline.expressionOption ∧ options.AllowsFlag Inline.rangeOption :=
  exists_columnInline ComplexInlineAlgorithm.tag options fun t b =>
    ComplexInlineAlgorithm.mk t (Options.items options Inline.columnsOption) b

theorem defaultExpression_parses : ∃ t, Template.parse HintInlineAlgorithm.defaultExpression = .ok t := by
  have hparses : (Template.parse HintInlineAlgorithm.defaultExpression).toOption.isSome = true := by
    decide +kernel
  cases h : Template.parse HintInlineAlgorithm.defaultExpression with
  | ok t => exact ⟨t, rfl⟩
  | error e =>
    rw [h] at hparses
    cases hparses

open Options.Reader in
/-- Without an expression the default one counts, which is a template. -/
theorem exists_hintInline {options : Options} : (∃ a, HintInlineAlgorithm.build options = .ok a) ↔
    options.AllowsTemplate Inline.expressionOption := by
  let r : Options.Reader := ⟨HintInlineAlgorithm.tag, options⟩
  have hbuild : (∃ a, HintInlineAlgorithm.build options = .ok a) ↔ ∃ t, Template.parse
      ((r.present? Inline.expressionOption).getD HintInlineAlgorithm.defaultExpression) = .ok t := by
    simp only [HintInlineAlgorithm.build, bind_eq_ok, parseTemplate_eq_ok, Except.ok.injEq]
    exact ⟨fun ⟨_, t, ht, _⟩ => ⟨t, ht⟩, fun ⟨t, ht⟩ => ⟨_, t, ht, rfl⟩⟩
  rw [hbuild]
  cases hpresent : r.present? Inline.expressionOption with
  | none =>
    refine iff_of_true defaultExpression_parses fun raw hraw hblank => ?_
    rw [present?_eq_some.2 ⟨raw, hraw, hblank, rfl⟩] at hpresent
    cases hpresent
  | some value =>
    obtain ⟨raw, hraw, hblank, rfl⟩ := present?_eq_some.1 hpresent
    refine ⟨fun ht raw' hraw' _ => ?_, fun h => h raw hraw hblank⟩
    rw [show options.get? Inline.expressionOption = some raw from hraw] at hraw'
    cases hraw'
    exact ht

open Options.Reader in
theorem exists_counted {α : Type} (name : String) (options : Options) (f : ShardCount → α) :
    (∃ a, (positive ⟨name, options⟩ Modulo.countOption >>= fun n => Except.ok (f n)) = .ok a) ↔
      options.HoldsPositive Modulo.countOption := by
  rw [← exists_positive, exists_bind_eq_ok]
  exact ⟨fun ⟨n, hn, _⟩ => ⟨n, hn⟩, fun ⟨n, hn⟩ => ⟨n, hn, _, rfl⟩⟩

theorem exists_modulo {options : Options} : (∃ a, Modulo.build options = .ok a) ↔
    options.HoldsPositive Modulo.countOption :=
  exists_counted Modulo.tag options StandardAlgorithm.mod

theorem exists_hashed {options : Options} : (∃ a, Modulo.buildHashed options = .ok a) ↔
    options.HoldsPositive Modulo.countOption :=
  exists_counted Modulo.hashTag options StandardAlgorithm.hashMod

/-- The constructor of a tag is the one that the built-in algorithms list for it. -/
theorem get?_sharding {tag : String} {c : Constructor Algorithm} :
    builtin.sharding.get? tag = some c ↔
      tag = InlineAlgorithm.tag ∧
          c = (fun o => (InlineAlgorithm.build o).map fun a => .standard (.inline a)) ∨
        tag = ComplexInlineAlgorithm.tag ∧ c = (fun o => (ComplexInlineAlgorithm.build o).map .complex) ∨
        tag = HintInlineAlgorithm.tag ∧ c = (fun o => (HintInlineAlgorithm.build o).map .hint) ∨
        tag = Modulo.tag ∧ c = (fun o => (Modulo.build o).map .standard) ∨
        tag = Modulo.hashTag ∧ c = (fun o => (Modulo.buildHashed o).map .standard) := by
  rw [builtin, NameMap.get?_ofList_of_nodup (by simp [InlineAlgorithm.tag, ComplexInlineAlgorithm.tag,
    HintInlineAlgorithm.tag, Modulo.tag, Modulo.hashTag])]
  simp only [List.mem_cons, Prod.mk.injEq, List.not_mem_nil, or_false]

theorem exists_sharding {shape : Shape} :
    (∃ a, construct builtin.sharding s = .ok a ∧ a.shape = shape) ↔ s.DeclaresSharding shape := by
  simp only [construct_eq_ok, get?_sharding]
  constructor
  · rintro ⟨a, ⟨c, hc, ha⟩, rfl⟩
    rcases hc with ⟨htag, rfl⟩ | ⟨htag, rfl⟩ | ⟨htag, rfl⟩ | ⟨htag, rfl⟩ | ⟨htag, rfl⟩ <;>
      obtain ⟨b, hb, rfl⟩ := map_eq_ok.1 ha
    · obtain ⟨htemplate, hranges⟩ := exists_inline.1 ⟨b, hb⟩
      exact .inline htag htemplate hranges
    · obtain ⟨htemplate, hranges⟩ := exists_complexInline.1 ⟨b, hb⟩
      exact .complexInline htag htemplate hranges
    · exact .hintInline htag (exists_hintInline.1 ⟨b, hb⟩)
    · exact .modulo (.inl htag) (exists_modulo.1 ⟨b, hb⟩)
    · exact .modulo (.inr htag) (exists_hashed.1 ⟨b, hb⟩)
  · rintro (⟨htag, htemplate, hranges⟩ | ⟨htag, htemplate, hranges⟩ | ⟨htag, htemplate⟩ |
      ⟨htag | htag, hcount⟩)
    · obtain ⟨b, hb⟩ := exists_inline.2 ⟨htemplate, hranges⟩
      exact ⟨_, ⟨_, .inl ⟨htag, rfl⟩, map_eq_ok.2 ⟨b, hb, rfl⟩⟩, rfl⟩
    · obtain ⟨b, hb⟩ := exists_complexInline.2 ⟨htemplate, hranges⟩
      exact ⟨_, ⟨_, .inr (.inl ⟨htag, rfl⟩), map_eq_ok.2 ⟨b, hb, rfl⟩⟩, rfl⟩
    · obtain ⟨b, hb⟩ := exists_hintInline.2 htemplate
      exact ⟨_, ⟨_, .inr (.inr (.inl ⟨htag, rfl⟩)), map_eq_ok.2 ⟨b, hb, rfl⟩⟩, rfl⟩
    · obtain ⟨b, hb⟩ := exists_modulo.2 hcount
      exact ⟨_, ⟨_, .inr (.inr (.inr (.inl ⟨htag, rfl⟩))), map_eq_ok.2 ⟨b, hb, rfl⟩⟩, rfl⟩
    · obtain ⟨b, hb⟩ := exists_hashed.2 hcount
      exact ⟨_, ⟨_, .inr (.inr (.inr (.inr ⟨htag, rfl⟩))), map_eq_ok.2 ⟨b, hb, rfl⟩⟩, rfl⟩

theorem exists_generator : (∃ a, construct builtin.keyGenerators s = .ok a) ↔ s.DeclaresGenerator := by
  have hget : ∀ c, builtin.keyGenerators.get? (key s.tag) = some c ↔
      key s.tag = KeyGenerator.tag ∧ c = KeyGenerator.build := by
    intro c
    rw [builtin, NameMap.get?_ofList_of_nodup (by simp), List.mem_singleton, Prod.mk.injEq]
  rw [DeclaresGenerator, ← Options.Reader.exists_integer KeyGenerator.tag 1]
  simp only [construct_eq_ok, hget]
  constructor
  · rintro ⟨a, _, ⟨htag, rfl⟩, ha⟩
    obtain ⟨n, hn, -⟩ := bind_eq_ok.1 ha
    exact ⟨htag, n, hn⟩
  · rintro ⟨htag, n, hn⟩
    exact ⟨_, _, ⟨htag, rfl⟩, bind_eq_ok.2 ⟨n, hn, rfl⟩⟩

theorem exists_auditor : (∃ a, construct builtin.auditors s = .ok a) ↔ s.DeclaresAuditor := by
  have hget : ∀ c, builtin.auditors.get? (key s.tag) = some c ↔
      key s.tag = Auditor.tag ∧ c = fun _ => .ok .dmlConditions := by
    intro c
    rw [builtin, NameMap.get?_ofList_of_nodup (by simp), List.mem_singleton, Prod.mk.injEq]
  simp only [construct_eq_ok, hget]
  constructor
  · rintro ⟨a, _, ⟨htag, -⟩, -⟩
    exact htag
  · exact fun htag => ⟨_, _, ⟨htag, rfl⟩, rfl⟩

end AlgorithmSpec

end ShardedSql
