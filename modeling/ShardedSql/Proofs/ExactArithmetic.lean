import ShardedSql.Expr.Eval
import ShardedSql.Proofs.Numerals
import Mathlib.Data.String.Basic

/-! Evaluation beside exact evaluation, which computes over all integers and keeps a record of every
arithmetic result that it meets. The two come to the same value or the same failure unless some result on
the way does not fit in 64 bits: then evaluation reports the overflow of the first one. A single result is
refused although it fits, the remainder of the least integer by minus one. -/

namespace ShardedSql

/-- A value whose integers have any size. -/
inductive ExactValue where
  | null
  | bool (b : Bool)
  | int (n : Int)
  | str (s : String)
  deriving DecidableEq

namespace ExactValue

def kind : ExactValue → Value.Kind
  | null => .null
  | bool _ => .bool
  | int _ => .int
  | str _ => .string

def text : ExactValue → String
  | null => "null"
  | bool true => "true"
  | bool false => "false"
  | int n => toString n
  | str s => s

def truthy : ExactValue → Bool
  | null => false
  | bool b => b
  | int n => n ≠ 0
  | str s => s ≠ ""

end ExactValue

def Value.exact : Value → ExactValue
  | null => .null
  | bool b => .bool b
  | int n => .int n.toInt
  | str s => .str s

section Embedding

variable (v : Value)

@[simp] theorem ExactValue.text_exact : v.exact.text = v.text := by
  cases v with
  | bool b => cases b <;> rfl
  | _ => rfl

@[simp] theorem ExactValue.truthy_exact : v.exact.truthy = v.truthy := by
  cases v with
  | int n =>
    have hzero : n.toInt = 0 ↔ n = 0 := Int64.toInt_inj (y := 0)
    simp [Value.exact, truthy, Value.truthy, hzero, bne, beq_eq_decide]
  | str s => simp [Value.exact, truthy, Value.truthy, String.isEmpty, beq_eq_decide]
  | _ => rfl

theorem Value.exact_inj {v w : Value} : v.exact = w.exact ↔ v = w := by
  cases v <;> cases w <;> simp [exact, Int64.toInt_inj]

end Embedding

/-- An arithmetic result: the operation, the integers it was applied to, and what they come to. -/
structure Met where
  operation : String
  operands : List Int
  result : Int
  deriving DecidableEq

namespace Met

/-- The result is an integer of 64 signed bits. -/
def Fits (m : Met) : Prop := Int64.minValue.toInt ≤ m.result ∧ m.result ≤ Int64.maxValue.toInt

instance : DecidablePred Fits := fun _ => inferInstanceAs (Decidable (_ ∧ _))

/-- The remainder of the least integer by minus one. -/
def IsLeastRemainder (m : Met) : Prop := m.operation = "%" ∧ m.operands = [Int64.minValue.toInt, -1]

instance : DecidablePred IsLeastRemainder := fun _ => inferInstanceAs (Decidable (_ ∧ _))

/-- The result can be gone on with. -/
def Accepted (m : Met) : Prop := m.Fits ∧ ¬ m.IsLeastRemainder

instance : DecidablePred Accepted := fun _ => inferInstanceAs (Decidable (_ ∧ _))

end Met

/-- An exact evaluation: the arithmetic results that it met, in their order, and what it came to. -/
structure Course (α : Type) where
  met : List Met
  outcome : Except ExprError α

namespace Course

variable {α β γ δ : Type}

instance : Monad Course where
  pure a := ⟨[], .ok a⟩
  bind c f :=
    match c.outcome with
    | .ok a => ⟨c.met ++ (f a).met, (f a).outcome⟩
    | .error e => ⟨c.met, .error e⟩

def fail (e : ExprError) : Course α := ⟨[], .error e⟩

def meet (operation : String) (operands : List Int) (result : Int) : Course ExactValue :=
  ⟨[⟨operation, operands, result⟩], .ok (.int result)⟩

end Course

namespace Expr

/-- Division truncates, and a remainder has the sign of the dividend. -/
def exactArithmetic (op : BinaryOp) (a b : Int) : Course ExactValue :=
  match op with
  | .add => .meet "+" [a, b] (a + b)
  | .sub => .meet "-" [a, b] (a - b)
  | .mul => .meet "*" [a, b] (a * b)
  | .div => if b = 0 then .fail .divisionByZero else .meet "/" [a, b] (a.tdiv b)
  | .rem => if b = 0 then .fail .divisionByZero else .meet "%" [a, b] (a.tmod b)
  | _ => .fail (.typeMismatch op.symbol [.int, .int])

/-- Integers are compared by size, strings by their characters. -/
def exactBinary (op : BinaryOp) (a b : ExactValue) : Course ExactValue :=
  match op, a, b with
  | .eq, a, b => pure (.bool (a = b))
  | .ne, a, b => pure (.bool (a ≠ b))
  | .add, .str a, b => pure (.str (a ++ b.text))
  | .add, a, .str b => pure (.str (a.text ++ b))
  | .lt, .int a, .int b => pure (.bool (a < b))
  | .le, .int a, .int b => pure (.bool (a ≤ b))
  | .gt, .int a, .int b => pure (.bool (a > b))
  | .ge, .int a, .int b => pure (.bool (a ≥ b))
  | .lt, .str a, .str b => pure (.bool (a < b))
  | .le, .str a, .str b => pure (.bool (a ≤ b))
  | .gt, .str a, .str b => pure (.bool (a > b))
  | .ge, .str a, .str b => pure (.bool (a ≥ b))
  | op, .int a, .int b => exactArithmetic op a b
  | op, a, b => .fail (.typeMismatch op.symbol [a.kind, b.kind])

def exactUnary (op : UnaryOp) (v : ExactValue) : Course ExactValue :=
  match op, v with
  | .not, v => pure (.bool (!v.truthy))
  | .negate, .int n => .meet "-" [n] (-n)
  | .negate, v => .fail (.typeMismatch "-" [v.kind])

def exactSubstring (text : String) (start : Int) (length : Option Int) : String :=
  let rest := text.toList.drop start.toNat
  match length with
  | none => String.ofList rest
  | some n => String.ofList (rest.take n.toNat)

def Builtin.exactApply (f : Builtin) (values : List ExactValue) : Course ExactValue :=
  match f, values with
  | .abs, [.int n] => .meet "abs" [n] n.natAbs
  | .hash, [v] => pure (.int (Value.str v.text).stableHash.toInt)
  | .str, [v] => pure (.str v.text)
  | .lower, [.str s] => pure (.str (Text.lower s))
  | .upper, [.str s] => pure (.str (Text.upper s))
  | .substr, [.str s, .int start] => pure (.str (exactSubstring s start none))
  | .substr, [.str s, .int start, .int n] => pure (.str (exactSubstring s start (some n)))
  | .substr, [.str _, .int _, n] => .fail (.typeMismatch "substr" [n.kind])
  | .substr, [text, start] => .fail (.typeMismatch "substr" [text.kind, start.kind])
  | .substr, [text, start, _] => .fail (.typeMismatch "substr" [text.kind, start.kind])
  | .substr, values => .fail (.argumentCount "substr" .twoOrThree values.length)
  | f, [v] => .fail (.typeMismatch f.name [v.kind])
  | f, values => .fail (.argumentCount f.name .one values.length)

def exactFunction (name : String) (values : List ExactValue) : Course ExactValue :=
  match Builtin.ofName? name with
  | some f => f.exactApply values
  | none => .fail (.unknownFunction name)

def exactLookup (vars : Bindings) (name : String) : Course ExactValue :=
  match vars name with
  | some v => pure v.exact
  | none => .fail (.unknownVariable name)

mutual

/-- The exact value of an expression: nothing overflows, and `&&`, `||` and the conditional take no more
than they need. -/
def exactly (vars : Bindings) : Expr → Course ExactValue
  | .literal v => pure v.exact
  | .var name => exactLookup vars name
  | .unary op e => do exactUnary op (← exactly vars e)
  | .binary .and a b => do
    if (← exactly vars a).truthy then pure (.bool (← exactly vars b).truthy)
    else pure (.bool false)
  | .binary .or a b => do
    if (← exactly vars a).truthy then pure (.bool true)
    else pure (.bool (← exactly vars b).truthy)
  | .binary op a b => do
    let x ← exactly vars a
    let y ← exactly vars b
    exactBinary op x y
  | .conditional c a b => do
    if (← exactly vars c).truthy then exactly vars a else exactly vars b
  | .call name es => do exactFunction name (← exactlyAll vars es)
  | .range _ _ => .fail .notScalar
  | .list _ => .fail .notScalar

def exactlyAll (vars : Bindings) : List Expr → Course (List ExactValue)
  | [] => pure []
  | e :: es => do
    let v ← exactly vars e
    let vs ← exactlyAll vars es
    pure (v :: vs)

end

end Expr

/-- How a result stands beside an exact course: it is the overflow of the first arithmetic result of the
course that is not accepted, and what the course comes to where all are. -/
def Follows {α β : Type} (f : α → β) (r : Except ExprError α) (c : Course β) : Prop :=
  match c.met.find? (fun m => ¬ m.Accepted) with
  | some m => r = .error (.overflow m.operation)
  | none => r.map f = c.outcome

namespace Follows

variable {α β γ δ : Type} {f : α → β} {g : γ → δ}

theorem pure {a : α} {b : β} (h : f a = b) : Follows f (.ok a) (Pure.pure b : Course β) :=
  congrArg Except.ok h

theorem fail {e e' : ExprError} (h : e = e') : Follows f (.error e) (.fail e') := congrArg Except.error h

theorem bind {r : Except ExprError α} {c : Course β} {k : α → Except ExprError γ} {k' : β → Course δ}
    (h : Follows f r c) (hk : ∀ a, Follows g (k a) (k' (f a))) : Follows g (r >>= k) (c >>= k') := by
  obtain ⟨met, outcome⟩ := c
  unfold Follows at h
  cases hfirst : met.find? (fun m => ¬ m.Accepted) with
  | some m =>
    -- The first result that is not accepted is met before the continuation starts.
    simp only [hfirst] at h
    subst h
    have hmet : ((⟨met, outcome⟩ : Course β) >>= k').met.find? (fun m => ¬ m.Accepted) = some m := by
      cases outcome with
      | error e => exact hfirst
      | ok b =>
        change (met ++ _).find? _ = _
        rw [List.find?_append, hfirst, Option.some_or]
    unfold Follows
    rw [hmet]
    rfl
  | none =>
    simp only [hfirst] at h
    cases r with
    | error e =>
      obtain rfl : Except.error e = outcome := h
      unfold Follows
      change match met.find? _ with | some m => _ | none => _
      rw [hfirst]
      rfl
    | ok a =>
      obtain rfl : Except.ok (f a) = outcome := h
      have hbehind := hk a
      unfold Follows at hbehind ⊢
      change match (met ++ (k' (f a)).met).find? _ with | some m => _ | none => _
      rw [List.find?_append, hfirst, Option.none_or]
      exact hbehind

end Follows

namespace Expr

theorem fitted_follows {operation : String} {operands : List Int} {n : Int}
    (h : ¬ Met.IsLeastRemainder ⟨operation, operands, n⟩) :
    Follows Value.exact (fitted operation n) (.meet operation operands n) := by
  by_cases hfits : Met.Fits ⟨operation, operands, n⟩
  · obtain ⟨word, hword⟩ : ∃ word, Text.fit64 n = some word := ⟨_, if_pos hfits⟩
    have hvalue : (fitted operation n).map Value.exact = .ok (.int n) := by
      rw [fitted, hword, ← Text.fit64_eq_some.1 hword]
      rfl
    have haccepted : Met.Accepted ⟨operation, operands, n⟩ := ⟨hfits, h⟩
    simpa [Follows, Course.meet, haccepted] using hvalue
  · have hoverflow : fitted operation n = .error (.overflow operation) := by
      rw [fitted, Text.fit64, if_neg (show ¬ (_ ∧ _) from hfits)]
    have hrefused : ¬ Met.Accepted ⟨operation, operands, n⟩ := fun haccepted => hfits haccepted.1
    simpa [Follows, Course.meet, hrefused] using hoverflow

/-- Of all quotients of 64-bit integers only that of the least one by minus one does not fit. -/
theorem quotient_fits {a b : Int64} (hb : b.toInt ≠ 0)
    (h : ¬ (a.toInt = Int64.minValue.toInt ∧ b.toInt = -1)) :
    Int64.minValue.toInt ≤ a.toInt.tdiv b.toInt ∧ a.toInt.tdiv b.toInt ≤ Int64.maxValue.toInt := by
  have hmin := Int64.le_iff_toInt_le.1 (Int64.minValue_le a)
  have hmax := Int64.le_iff_toInt_le.1 (Int64.le_maxValue a)
  have hleast : Int64.minValue.toInt = -2 ^ 63 := by decide
  have hgreatest : Int64.maxValue.toInt = 2 ^ 63 - 1 := by decide
  by_cases hone : b.toInt = -1
  · rw [hone, Int.tdiv_neg, Int.tdiv_one]
    omega
  by_cases hone' : b.toInt = 1
  · rw [hone', Int.tdiv_one]
    omega
  · have habs : (a.toInt.tdiv b.toInt).natAbs ≤ a.toInt.natAbs / 2 := by
      rw [Int.natAbs_tdiv]
      exact Nat.div_le_div_left (by omega) (by omega)
    omega

theorem exactArithmetic_follows (op : BinaryOp) (a b : Int64) :
    Follows Value.exact (arithmetic op a b) (exactArithmetic op a.toInt b.toInt) := by
  have hzero : b = 0 ↔ b.toInt = 0 := Int64.toInt_inj.symm
  cases op with
  | add => exact fitted_follows (by simp [Met.IsLeastRemainder])
  | sub => exact fitted_follows (by simp [Met.IsLeastRemainder])
  | mul => exact fitted_follows (by simp [Met.IsLeastRemainder])
  | div =>
    unfold arithmetic exactArithmetic
    simp only [hzero]
    split
    · exact .fail rfl
    · exact fitted_follows (by simp [Met.IsLeastRemainder])
  | rem =>
    unfold arithmetic exactArithmetic
    simp only [hzero]
    split
    · exact .fail rfl
    · rename_i hb
      by_cases hleast : a.toInt = Int64.minValue.toInt ∧ b.toInt = -1
      · rw [hleast.1, hleast.2]
        rfl
      · have hquotient := Text.exists_fit64 (a := Int64.minValue) (b := Int64.maxValue)
          (quotient_fits hb hleast).1 (quotient_fits hb hleast).2
        obtain ⟨q, hq⟩ := hquotient
        have hfitted : fitted "%" (a.toInt.tdiv b.toInt) = .ok (.int q) := by rw [fitted, hq]
        rw [hfitted]
        exact fitted_follows (by simpa [Met.IsLeastRemainder] using hleast)
  | _ => exact .fail rfl

section Comparisons

variable {α : Type} [LinearOrder α] (a b : α)

theorem isLT_compare : (compare a b).isLT = decide (a < b) := by
  rw [Bool.eq_iff_iff, decide_eq_true_iff, Ordering.isLT_iff_eq_lt]
  exact compare_lt_iff_lt

theorem isLE_compare : (compare a b).isLE = decide (a ≤ b) := by
  rw [Bool.eq_iff_iff, decide_eq_true_iff, Ordering.isLE_iff_ne_gt]
  exact compare_le_iff_le

theorem isGT_compare : (compare a b).isGT = decide (a > b) := by
  rw [Bool.eq_iff_iff, decide_eq_true_iff, Ordering.isGT_iff_eq_gt]
  exact compare_gt_iff_gt

theorem isGE_compare : (compare a b).isGE = decide (a ≥ b) := by
  rw [Bool.eq_iff_iff, decide_eq_true_iff, Ordering.isGE_iff_ne_lt]
  exact compare_ge_iff_ge

end Comparisons

theorem exactBinary_follows (op : BinaryOp) (a b : Value) :
    Follows Value.exact (applyBinary op a b) (exactBinary op a.exact b.exact) := by
  have hequal : a.exact = b.exact ↔ a = b := Value.exact_inj
  cases op with
  | eq => exact .pure (congrArg ExactValue.bool (decide_eq_decide.2 hequal.symm))
  | ne => exact .pure (congrArg ExactValue.bool (decide_eq_decide.2 (not_congr hequal.symm)))
  | add =>
    by_cases ha : a.kind = .string
    · obtain ⟨s, rfl⟩ : ∃ s, a = .str s := by cases a <;> first | exact ⟨_, rfl⟩ | cases ha
      exact .pure (congrArg (fun t => ExactValue.str (s ++ t)) (ExactValue.text_exact b).symm)
    · cases b with
      | str s =>
        have htext := congrArg (fun t => ExactValue.str (t ++ s)) (ExactValue.text_exact a).symm
        cases a <;> first | exact absurd rfl ha | exact .pure htext
      | _ => cases a <;> first | exact absurd rfl ha | exact exactArithmetic_follows _ _ _ | exact .fail rfl
  | lt =>
    cases a <;> cases b <;>
      first | exact .pure (congrArg ExactValue.bool (isLT_compare _ _)) | exact .fail rfl
  | le =>
    cases a <;> cases b <;>
      first | exact .pure (congrArg ExactValue.bool (isLE_compare _ _)) | exact .fail rfl
  | gt =>
    cases a <;> cases b <;>
      first | exact .pure (congrArg ExactValue.bool (isGT_compare _ _)) | exact .fail rfl
  | ge =>
    cases a <;> cases b <;>
      first | exact .pure (congrArg ExactValue.bool (isGE_compare _ _)) | exact .fail rfl
  | _ => cases a <;> cases b <;> first | exact exactArithmetic_follows _ _ _ | exact .fail rfl

theorem exactUnary_follows (op : UnaryOp) (v : Value) :
    Follows Value.exact (applyUnary op v) (exactUnary op v.exact) := by
  cases op with
  | not => exact .pure (congrArg (fun b => ExactValue.bool (!b)) (ExactValue.truthy_exact v).symm)
  | negate =>
    cases v with
    | int n => exact fitted_follows (by simp [Met.IsLeastRemainder])
    | _ => exact .fail rfl

theorem exactApply_follows (f : Builtin) (vs : List Value) :
    Follows Value.exact (f.apply vs) (f.exactApply (vs.map Value.exact)) := by
  have hcount : ∀ arity, ExprError.argumentCount f.name arity vs.length =
      .argumentCount f.name arity (vs.map Value.exact).length := by simp
  cases f with
  | substr =>
    rcases vs with _ | ⟨text, _ | ⟨start, _ | ⟨length, _ | ⟨v, rest⟩⟩⟩⟩
    · exact .fail rfl
    · cases text <;> exact .fail rfl
    · cases text <;> cases start <;> first | exact .pure rfl | exact .fail rfl
    · cases text <;> cases start <;> cases length <;> first | exact .pure rfl | exact .fail rfl
    · cases text <;> cases start <;> cases length <;> exact .fail (hcount _)
  | abs =>
    rcases vs with _ | ⟨v, _ | ⟨w, rest⟩⟩
    · exact .fail rfl
    · cases v <;> first | exact fitted_follows (by simp [Met.IsLeastRemainder]) | exact .fail rfl
    · cases v <;> exact .fail (hcount _)
  | hash =>
    rcases vs with _ | ⟨v, _ | ⟨w, rest⟩⟩
    · exact .fail rfl
    · refine .pure ?_
      rw [ExactValue.text_exact]
      rfl
    · exact .fail (hcount _)
  | str =>
    rcases vs with _ | ⟨v, _ | ⟨w, rest⟩⟩
    · exact .fail rfl
    · exact .pure (congrArg ExactValue.str (ExactValue.text_exact v).symm)
    · exact .fail (hcount _)
  | _ =>
    rcases vs with _ | ⟨v, _ | ⟨w, rest⟩⟩
    · exact .fail rfl
    · cases v <;> first | exact .pure rfl | exact .fail rfl
    · cases v <;> exact .fail (hcount _)

theorem exactFunction_follows (name : String) (vs : List Value) :
    Follows Value.exact (applyFunction name vs) (exactFunction name (vs.map Value.exact)) := by
  unfold applyFunction exactFunction
  cases Builtin.ofName? name with
  | none => exact .fail rfl
  | some f => exact exactApply_follows f vs

theorem exactLookup_follows (vars : Bindings) (name : String) :
    Follows Value.exact (lookup vars name) (exactLookup vars name) := by
  unfold lookup exactLookup
  cases vars name with
  | none => exact .fail rfl
  | some v => exact .pure rfl

mutual

theorem exactly_follows (vars : Bindings) (e : Expr) :
    Follows Value.exact (evaluate vars e) (exactly vars e) := by
  cases e with
  | literal v =>
    rw [evaluate, exactly]
    exact .pure rfl
  | var name =>
    rw [evaluate, exactly]
    exact exactLookup_follows vars name
  | unary op e =>
    rw [evaluate, exactly]
    exact (exactly_follows vars e).bind fun v => exactUnary_follows op v
  | binary op a b =>
    have ha := exactly_follows vars a
    have hb := exactly_follows vars b
    have htruth : Follows Value.exact (do .ok (.bool (← evaluate vars b).truthy))
        (do pure (.bool (← exactly vars b).truthy)) :=
      hb.bind fun w => .pure (congrArg ExactValue.bool (ExactValue.truthy_exact w).symm)
    cases op
    case and =>
      rw [evaluate, exactly]
      refine ha.bind fun v => ?_
      rw [ExactValue.truthy_exact]
      split
      · exact htruth
      · exact .pure rfl
    case or =>
      rw [evaluate, exactly]
      refine ha.bind fun v => ?_
      rw [ExactValue.truthy_exact]
      split
      · exact .pure rfl
      · exact htruth
    all_goals
      simp only [evaluate, exactly]
      exact ha.bind fun v => hb.bind fun w => exactBinary_follows _ v w
  | conditional c a b =>
    rw [evaluate, exactly]
    refine (exactly_follows vars c).bind fun v => ?_
    rw [ExactValue.truthy_exact]
    split
    · exact exactly_follows vars a
    · exact exactly_follows vars b
  | call name es =>
    rw [evaluate, exactly]
    exact (exactlyAll_follows vars es).bind fun vs => exactFunction_follows name vs
  | range a b =>
    rw [evaluate, exactly]
    exact .fail rfl
  | list es =>
    rw [evaluate, exactly]
    exact .fail rfl

theorem exactlyAll_follows (vars : Bindings) (es : List Expr) :
    Follows (List.map Value.exact) (evaluateAll vars es) (exactlyAll vars es) := by
  cases es with
  | nil =>
    rw [evaluateAll, exactlyAll]
    exact .pure rfl
  | cons e es =>
    rw [evaluateAll, exactlyAll]
    exact (exactly_follows vars e).bind fun v => (exactlyAll_follows vars es).bind fun vs => .pure rfl

end

end Expr

open ShardedSql.Expr in
/-- Evaluation gives the exact value, or fails as the exact evaluation does, when every arithmetic result on
the way can be gone on with; otherwise it reports the overflow of the first one that cannot. -/
theorem evaluate_exact (vars : Bindings) (e : Expr) :
    ((∀ m ∈ (exactly vars e).met, m.Accepted) →
      (evaluate vars e).map Value.exact = (exactly vars e).outcome) ∧
    ∀ before m after, (exactly vars e).met = before ++ m :: after → (∀ n ∈ before, n.Accepted) →
      ¬ m.Accepted → evaluate vars e = .error (.overflow m.operation) := by
  have hfollows := exactly_follows vars e
  unfold Follows at hfollows
  constructor
  · intro hall
    have hnone : (exactly vars e).met.find? (fun m => ¬ m.Accepted) = none :=
      List.find?_eq_none.2 fun m hm => by simpa using hall m hm
    rwa [hnone] at hfollows
  · intro before m after hmet hbefore hrefused
    have hfirst : (exactly vars e).met.find? (fun m => ¬ m.Accepted) = some m := by
      rw [hmet, List.find?_append, List.find?_eq_none.2 fun n hn => by simpa using hbefore n hn]
      simp [hrefused]
    rwa [hfirst] at hfollows

section Edges

open ShardedSql.Expr

/-- The two ends of the 64-bit integers. -/
def edges : Bindings
  | "small" => some (.int Int64.minValue)
  | "big" => some (.int Int64.maxValue)
  | _ => none

def minus (n : Int64) : Expr := .unary .negate (.literal (.int n))

/-- `abs(small + 1) % -2` -/
def oddRest : Expr :=
  .binary .rem (.call "abs" [.binary .add (.var "small") (.literal (.int 1))]) (minus 2)

/-- `small / -1 + 1 / 0` -/
def tooLargeQuotient : Expr :=
  .binary .add (.binary .div (.var "small") (minus 1))
    (.binary .div (.literal (.int 1)) (.literal (.int 0)))

/-- All results of the first tree fit; the second one overflows before it divides by zero. -/
theorem evaluate_exact_edges :
    (∀ m ∈ (exactly edges oddRest).met, m.Accepted) ∧
      (evaluate edges oddRest).map Value.exact = .ok (.int 1) ∧
      (exactly edges tooLargeQuotient).met =
        [⟨"-", [1], -1⟩] ++ ⟨"/", [-2 ^ 63, -1], 2 ^ 63⟩ :: [] ∧
      (exactly edges tooLargeQuotient).outcome = .error .divisionByZero ∧
      evaluate edges tooLargeQuotient = .error (.overflow "/") := by
  have hall : ∀ m ∈ (exactly edges oddRest).met, m.Accepted := by decide +kernel
  have hmet : (exactly edges tooLargeQuotient).met =
      [⟨"-", [1], -1⟩] ++ ⟨"/", [-2 ^ 63, -1], 2 ^ 63⟩ :: [] := by decide +kernel
  refine ⟨hall, ?_, hmet, rfl, ?_⟩
  · rw [(evaluate_exact edges oddRest).1 hall]
    rfl
  · exact (evaluate_exact edges tooLargeQuotient).2 _ _ _ hmet (by decide +kernel) (by decide +kernel)

/-- `small % -1` -/
def leastRemainder : Expr := .binary .rem (.var "small") (minus 1)

/-- The exact remainder is zero, and all results on the way fit; all the same it is refused. -/
theorem least_remainder_overflows :
    (exactly edges leastRemainder).outcome = .ok (.int 0) ∧
      (∀ m ∈ (exactly edges leastRemainder).met, m.Fits) ∧
      evaluate edges leastRemainder = .error (.overflow "%") :=
  ⟨rfl, by decide +kernel, rfl⟩

end Edges

end ShardedSql
