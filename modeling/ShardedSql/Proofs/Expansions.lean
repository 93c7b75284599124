import ShardedSql.Expr.Expand
import ShardedSql.Proofs.Numerals
import ShardedSql.Proofs.Success

/-! What an expression expands to, said without a limit: a range stands for the integers between its ends, a
list for what its items stand for one after another, a sum for the sums of all pairs. An expansion gives just
these values, unless it comes on its way to more values than the limit before anything else fails. -/

namespace ShardedSql

/-! ### Integers between two others -/

/-- The 64-bit integers from one to another, both included, in ascending order. -/
structure Ascending (a b : Int64) (ns : List Int64) : Prop where
  ordered : ns.Pairwise fun m n => m.toInt < n.toInt
  between : ∀ n, n ∈ ns ↔ a.toInt ≤ n.toInt ∧ n.toInt ≤ b.toInt

def wordsBetween (a b : Int64) : List Int64 :=
  (List.range (b.toInt - a.toInt + 1).toNat).map fun i : Nat => Int64.ofInt (a.toInt + Int.ofNat i)

section Ascending

variable {a b : Int64} {ns ns' : List Int64}

theorem Ascending.unique (h : Ascending a b ns) (h' : Ascending a b ns') : ns = ns' := by
  have hnodup : ∀ {l : List Int64}, l.Pairwise (fun m n => m.toInt < n.toInt) → l.Nodup :=
    fun hl => hl.imp fun hlt heq => (heq ▸ hlt).ne rfl
  have hperm : ns.Perm ns' := (List.perm_ext_iff_of_nodup (hnodup h.ordered) (hnodup h'.ordered)).2
    fun n => (h.between n).trans (h'.between n).symm
  exact hperm.eq_of_pairwise (fun m n _ _ hmn hnm => absurd hmn hnm.asymm) h.ordered h'.ordered

theorem ascending_wordsBetween (a b : Int64) : Ascending a b (wordsBetween a b) := by
  have hword : ∀ i ∈ List.range (b.toInt - a.toInt + 1).toNat,
      (Int64.ofInt (a.toInt + Int.ofNat i)).toInt = a.toInt + i := by
    intro i hi
    rw [List.mem_range] at hi
    obtain ⟨n, hn⟩ := Text.exists_fit64 (a := a) (b := b) (n := a.toInt + i) (by omega) (by omega)
    have hn' := Text.fit64_eq_some.1 hn
    rw [Int.ofNat_eq_natCast, ← hn', Int64.ofInt_toInt]
  constructor
  case ordered =>
    rw [wordsBetween, List.pairwise_map]
    refine List.pairwise_lt_range.imp_of_mem fun {i j} hi hj hij => ?_
    rw [hword i hi, hword j hj]
    omega
  case between =>
    intro n
    rw [wordsBetween, List.mem_map]
    constructor
    · rintro ⟨i, hi, rfl⟩
      rw [hword i hi]
      rw [List.mem_range] at hi
      omega
    · rintro ⟨hfirst, hlast⟩
      refine ⟨(n.toInt - a.toInt).toNat, List.mem_range.2 (by omega), ?_⟩
      rw [Int.ofNat_eq_natCast, Int.toNat_of_nonneg (by omega), add_sub_cancel]
      exact Int64.ofInt_toInt n

end Ascending

namespace Expr

variable {vars : Bindings}

/-! ### The values without a limit -/

inductive Denotes (vars : Bindings) : Expr → List Value → Prop
  | single {e : Expr} {v : Value} (h : evaluate vars e = .ok v) : Denotes vars e [v]
  | range {first last : Expr} {a b : Int64} {ns : List Int64} (hfirst : evaluate vars first = .ok (.int a))
      (hlast : evaluate vars last = .ok (.int b)) (h : Ascending a b ns) :
      Denotes vars (.range first last) (ns.map .int)
  | nil : Denotes vars (.list []) []
  | cons {e : Expr} {es : List Expr} {vs ws : List Value} (h : Denotes vars e vs)
      (hs : Denotes vars (.list es) ws) : Denotes vars (.list (e :: es)) (vs ++ ws)
  | sum {left right : Expr} {xs ys vs : List Value} (hleft : Denotes vars left xs)
      (hright : Denotes vars right ys)
      (h : List.Forall₂ (fun p v => applyBinary .add p.1 p.2 = .ok v) (xs ×ˢ ys) vs) :
      Denotes vars (.binary .add left right) vs

/-- Before anything else fails, the expression or a part of it comes to more values than the limit. -/
inductive Exceeds (vars : Bindings) : Expr → Prop
  | range {first last : Expr} {a b : Int64} {ns : List Int64} (hfirst : evaluate vars first = .ok (.int a))
      (hlast : evaluate vars last = .ok (.int b)) (h : Ascending a b ns) (hlimit : maxValues < ns.length) :
      Exceeds vars (.range first last)
  | item {before after : List Expr} {e : Expr} {vs : List Value} (hbefore : Denotes vars (.list before) vs)
      (h : Exceeds vars e) : Exceeds vars (.list (before ++ e :: after))
  | items {before after : List Expr} {vs : List Value} (hbefore : Denotes vars (.list before) vs)
      (hlimit : maxValues < vs.length) : Exceeds vars (.list (before ++ after))
  | left {left right : Expr} (h : Exceeds vars left) : Exceeds vars (.binary .add left right)
  | right {left right : Expr} {xs : List Value} (hleft : Denotes vars left xs) (h : Exceeds vars right) :
      Exceeds vars (.binary .add left right)
  | pairs {left right : Expr} {xs ys : List Value} (hleft : Denotes vars left xs)
      (hright : Denotes vars right ys) (hlimit : maxValues < xs.length * ys.length) :
      Exceeds vars (.binary .add left right)

theorem evaluate_list (es : List Expr) : evaluate vars (.list es) = .error .notScalar := by
  rw [evaluate]

theorem evaluate_range (first last : Expr) : evaluate vars (.range first last) = .error .notScalar := by
  rw [evaluate]

theorem evaluate_sum {left right : Expr} {v : Value} :
    evaluate vars (.binary .add left right) = .ok v ↔ ∃ x y, evaluate vars left = .ok x ∧
      evaluate vars right = .ok y ∧ applyBinary .add x y = .ok v := by
  simp only [evaluate, bind_eq_ok]
  constructor
  · rintro ⟨x, hx, y, hy, h⟩
    exact ⟨x, y, hx, hy, h⟩
  · rintro ⟨x, y, hx, hy, h⟩
    exact ⟨x, hx, y, hy, h⟩

/-- An expression that has a value stands for nothing else. -/
theorem Denotes.eq_single {e : Expr} {v : Value} {vs : List Value} (h : Denotes vars e vs)
    (hv : evaluate vars e = .ok v) : vs = [v] := by
  induction h generalizing v with
  | single h =>
    rw [hv] at h
    cases h
    rfl
  | range => rw [evaluate_range] at hv; cases hv
  | nil => rw [evaluate_list] at hv; cases hv
  | cons => rw [evaluate_list] at hv; cases hv
  | sum _ _ h ihx ihy =>
    obtain ⟨x, y, hx, hy, hv⟩ := evaluate_sum.1 hv
    obtain rfl := ihx hx
    obtain rfl := ihy hy
    obtain ⟨w, hw, rfl⟩ := forall₂_singleton_left.1 h
    rw [hv] at hw
    cases hw
    rfl

theorem Denotes.unique {e : Expr} {vs vs' : List Value} (h : Denotes vars e vs) (h' : Denotes vars e vs') :
    vs = vs' := by
  induction h generalizing vs' with
  | single hv => exact (h'.eq_single hv).symm
  | range hfirst hlast h =>
    cases h' with
    | single hv => rw [evaluate_range] at hv; cases hv
    | range hfirst' hlast' h' =>
      rw [hfirst] at hfirst'
      rw [hlast] at hlast'
      cases hfirst'
      cases hlast'
      rw [h.unique h']
  | nil =>
    cases h' with
    | single hv => rw [evaluate_list] at hv; cases hv
    | nil => rfl
  | cons _ _ ih ihs =>
    cases h' with
    | single hv => rw [evaluate_list] at hv; cases hv
    | cons h' hs' => rw [ih h', ihs hs']
  | sum hleft hright h ihx ihy =>
    cases h' with
    | single hv => exact (Denotes.sum hleft hright h).eq_single hv
    | sum hleft' hright' h' =>
      obtain rfl := ihx hleft'
      obtain rfl := ihy hright'
      have hboth := mapM_eq_ok.2 h
      rw [mapM_eq_ok.2 h'] at hboth
      exact (Except.ok.inj hboth).symm

theorem denotes_list_append {before after : List Expr} {vs ws : List Value}
    (h : Denotes vars (.list before) vs) (h' : Denotes vars (.list after) ws) :
    Denotes vars (.list (before ++ after)) (vs ++ ws) := by
  induction before generalizing vs with
  | nil =>
    cases h with
    | single hv => rw [evaluate_list] at hv; cases hv
    | nil => exact h'
  | cons e before ih =>
    cases h with
    | single hv => rw [evaluate_list] at hv; cases hv
    | cons he hs =>
      rw [List.append_assoc]
      exact .cons he (ih hs)

/-! ### The limit -/

theorem withinLimit_eq_ok {count : Nat} {u : Unit} : withinLimit count = .ok u ↔ count ≤ maxValues := by
  unfold withinLimit
  split <;> simp_all

theorem withinLimit_eq_error {count : Nat} {e : ExprError} :
    withinLimit count = .error e ↔ maxValues < count ∧ e = .tooManyValues maxValues := by
  unfold withinLimit
  split <;> simp_all [eq_comm]

theorem integers_eq (a b : Int64) : integers a b =
    (withinLimit (wordsBetween a b).length >>= fun _ => .ok ((wordsBetween a b).map .int)) := by
  simp [integers, wordsBetween, Function.comp_def]

/-- No failure of this computation is the one for too many values. -/
def Unlimited {α : Type} (r : Except ExprError α) : Prop := ∀ limit, r ≠ .error (.tooManyValues limit)

section Unlimited

variable {α β : Type}

theorem Unlimited.ok (a : α) : Unlimited (.ok a) := fun _ => nofun

theorem Unlimited.bind {r : Except ExprError α} {k : α → Except ExprError β} (h : Unlimited r)
    (hk : ∀ a, Unlimited (k a)) : Unlimited (r >>= k) := by
  intro limit hr
  obtain hr | ⟨a, -, hr⟩ := bind_eq_error.1 hr
  · exact h limit hr
  · exact hk a limit hr

theorem unlimited_fitted (operation : String) (n : Int) : Unlimited (fitted operation n) := by
  intro limit
  unfold fitted
  split <;> simp

theorem unlimited_arithmetic (op : BinaryOp) (a b : Int64) : Unlimited (arithmetic op a b) := by
  unfold arithmetic
  split
  · exact unlimited_fitted _ _
  · exact unlimited_fitted _ _
  · exact unlimited_fitted _ _
  · split
    · exact fun _ => nofun
    · exact unlimited_fitted _ _
  · split
    · exact fun _ => nofun
    · exact (unlimited_fitted _ _).bind fun _ => unlimited_fitted _ _
  · exact fun _ => nofun

theorem unlimited_applyBinary (op : BinaryOp) (a b : Value) : Unlimited (applyBinary op a b) := by
  unfold applyBinary
  split
  · exact .ok _
  · exact .ok _
  · exact .ok _
  · exact .ok _
  · split
    · exact .ok _
    · exact unlimited_arithmetic _ _ _
  · split
    · exact .ok _
    · exact fun _ => nofun
  · exact fun _ => nofun

theorem unlimited_applyUnary (op : UnaryOp) (v : Value) : Unlimited (applyUnary op v) := by
  unfold applyUnary
  split
  · exact .ok _
  · exact unlimited_fitted _ _
  · exact fun _ => nofun

theorem unlimited_applyFunction (name : String) (vs : List Value) : Unlimited (applyFunction name vs) := by
  unfold applyFunction
  split
  · unfold Builtin.apply
    split <;> first | exact .ok _ | exact unlimited_fitted _ _ | exact fun _ => nofun
  · exact fun _ => nofun

mutual

theorem unlimited_evaluate (vars : Bindings) (e : Expr) : Unlimited (evaluate vars e) := by
  cases e with
  | literal v =>
    rw [evaluate]
    exact .ok v
  | var name =>
    rw [evaluate, lookup]
    split
    · exact .ok _
    · exact fun _ => nofun
  | unary op e =>
    rw [evaluate]
    exact (unlimited_evaluate vars e).bind fun v => unlimited_applyUnary op v
  | binary op a b =>
    have ha := unlimited_evaluate vars a
    have hb := unlimited_evaluate vars b
    cases op
    case and =>
      rw [evaluate]
      refine ha.bind fun v => ?_
      split
      · exact hb.bind fun w => .ok _
      · exact .ok _
    case or =>
      rw [evaluate]
      refine ha.bind fun v => ?_
      split
      · exact .ok _
      · exact hb.bind fun w => .ok _
    all_goals
      simp only [evaluate]
      exact ha.bind fun v => hb.bind fun w => unlimited_applyBinary _ v w
  | conditional c a b =>
    rw [evaluate]
    refine (unlimited_evaluate vars c).bind fun v => ?_
    split
    · exact unlimited_evaluate vars a
    · exact unlimited_evaluate vars b
  | call name es =>
    rw [evaluate]
    exact (unlimited_evaluateAll vars es).bind fun vs => unlimited_applyFunction name vs
  | range a b =>
    rw [evaluate_range]
    exact fun _ => nofun
  | list es =>
    rw [evaluate_list]
    exact fun _ => nofun

theorem unlimited_evaluateAll (vars : Bindings) (es : List Expr) : Unlimited (evaluateAll vars es) := by
  cases es with
  | nil =>
    rw [evaluateAll]
    exact .ok _
  | cons e es =>
    rw [evaluateAll]
    exact (unlimited_evaluate vars e).bind fun v => (unlimited_evaluateAll vars es).bind fun vs => .ok _

end

end Unlimited

/-! ### The recursion of the expansion -/

theorem evaluate_of_isMany {e : Expr} (h : e.isMany = true) (v : Value) : evaluate vars e ≠ .ok v := by
  fun_induction isMany e generalizing v with
  | case1 => simp [evaluate_range]
  | case2 => simp [evaluate_list]
  | case3 left right ihl ihr =>
    rw [ne_eq, evaluate_sum]
    rintro ⟨x, y, hx, hy, -⟩
    obtain h | h := Bool.or_eq_true_iff.1 h
    · exact ihl h x hx
    · exact ihr h y hy
  | case4 => cases h

theorem expand_of_not_isMany {e : Expr} (h : e.isMany = false) :
    expand vars e = (evaluate vars e >>= fun v => .ok [v]) := by
  cases e with
  | range | list => cases h
  | binary op left right =>
    cases op
    case add =>
      rw [expand]
      exact if_neg (Bool.eq_false_iff.1 h)
    all_goals simp only [expand]
  | _ => rw [expand] <;> simp

/-- A sum is expanded over its operands, whether they stand for one value or for several. -/
theorem expand_sum (left right : Expr) : expand vars (.binary .add left right) =
    (expand vars left >>= fun xs => expand vars right >>= fun ys =>
      withinLimit (xs.length * ys.length) >>= fun _ =>
        (xs ×ˢ ys).mapM fun p => applyBinary .add p.1 p.2) := by
  by_cases hmany : (left.isMany || right.isMany) = true
  · rw [expand, if_pos hmany]
    rfl
  · have hsum : (Expr.binary .add left right).isMany = false := Bool.eq_false_iff.2 hmany
    obtain ⟨hleft, hright⟩ := Bool.or_eq_false_iff.1 hsum
    rw [expand_of_not_isMany hleft, expand_of_not_isMany hright, expand_of_not_isMany hsum]
    simp only [evaluate]
    cases evaluate vars left with
    | error e => rfl
    | ok x =>
      cases evaluate vars right with
      | error e => rfl
      | ok y =>
        have hpair : List.mapM (fun p => applyBinary .add p.1 p.2) ([x] ×ˢ [y]) =
            (applyBinary .add x y >>= fun v => .ok [v]) := by
          cases h : applyBinary .add x y <;> simp [h] <;> rfl
        have hone : withinLimit ([x].length * [y].length) = .ok () := withinLimit_eq_ok.2 (by simp [maxValues])
        change (applyBinary .add x y >>= fun v => .ok [v]) =
          (withinLimit ([x].length * [y].length) >>= fun _ =>
            List.mapM (fun p => applyBinary .add p.1 p.2) ([x] ×ˢ [y]))
        rw [hone, ← hpair]
        rfl

theorem expand_range (first last : Expr) : expand vars (.range first last) =
    (evaluate vars first >>= fun v => rangeEnd v >>= fun a => evaluate vars last >>= fun w =>
      rangeEnd w >>= fun b => integers a b) := by
  rw [expand]

theorem expandAll_cons (count : Nat) (e : Expr) (es : List Expr) : expandAll vars count (e :: es) =
    (expand vars e >>= fun vs => withinLimit (count + vs.length) >>= fun _ =>
      expandAll vars (count + vs.length) es >>= fun ws => .ok (vs ++ ws)) := by
  rw [expandAll]

theorem expandAll_append (count : Nat) (before after : List Expr) :
    expandAll vars count (before ++ after) = (expandAll vars count before >>= fun vs =>
      expandAll vars (count + vs.length) after >>= fun ws => .ok (vs ++ ws)) := by
  induction before generalizing count with
  | nil =>
    rw [List.nil_append, expandAll]
    change _ = (expandAll vars count after >>= fun ws => .ok ws)
    cases expandAll vars count after <;> rfl
  | cons e before ih =>
    rw [List.cons_append, expandAll_cons, expandAll_cons]
    cases expand vars e with
    | error e => rfl
    | ok us =>
      change (withinLimit _ >>= fun _ => _) = ((withinLimit _ >>= fun _ => _) >>= _)
      cases withinLimit (count + us.length) with
      | error e => rfl
      | ok u =>
        change (expandAll vars _ (before ++ after) >>= fun ws => _) = ((expandAll vars _ before >>= _) >>= _)
        rw [ih]
        cases expandAll vars (count + us.length) before with
        | error e => rfl
        | ok vs =>
          change ((expandAll vars (count + us.length + vs.length) after >>= _) >>= _) =
            (expandAll vars (count + (us ++ vs).length) after >>= _)
          rw [List.length_append, ← Nat.add_assoc]
          cases expandAll vars (count + us.length + vs.length) after with
          | error e => rfl
          | ok ws => exact congrArg Except.ok (List.append_assoc us vs ws).symm

theorem rangeEnd_eq_ok {v : Value} {a : Int64} : rangeEnd v = .ok a ↔ v = .int a := by
  cases v <;> simp [rangeEnd]

theorem unlimited_rangeEnd (v : Value) : Unlimited (rangeEnd v) := by
  cases v <;> exact fun _ => nofun

/-- Where a computation fails for too many values, but its first step does not. -/
theorem Unlimited.bind_eq_error {α β : Type} {r : Except ExprError α} {k : α → Except ExprError β}
    {limit : Nat} (h : Unlimited r) (hfail : (r >>= k) = .error (.tooManyValues limit)) :
    ∃ a, r = .ok a ∧ k a = .error (.tooManyValues limit) :=
  (ShardedSql.bind_eq_error.1 hfail).resolve_left (h limit)

/-! ### What an expansion gives -/

mutual

theorem denotes_of_expand (e : Expr) {vs : List Value} (h : expand vars e = .ok vs) :
    Denotes vars e vs ∧ vs.length ≤ maxValues := by
  have hsingle : e.isMany = false → Denotes vars e vs ∧ vs.length ≤ maxValues := by
    intro hmany
    rw [expand_of_not_isMany hmany] at h
    obtain ⟨v, hv, h⟩ := bind_eq_ok.1 h
    cases h
    exact ⟨.single hv, by simp [maxValues]⟩
  cases e with
  | range first last =>
    rw [expand_range] at h
    obtain ⟨v, hv, h⟩ := bind_eq_ok.1 h
    obtain ⟨a, ha, h⟩ := bind_eq_ok.1 h
    obtain ⟨w, hw, h⟩ := bind_eq_ok.1 h
    obtain ⟨b, hb, h⟩ := bind_eq_ok.1 h
    rw [rangeEnd_eq_ok.1 ha] at hv
    rw [rangeEnd_eq_ok.1 hb] at hw
    rw [integers_eq] at h
    obtain ⟨u, hu, h⟩ := bind_eq_ok.1 h
    cases h
    refine ⟨.range hv hw (ascending_wordsBetween a b), ?_⟩
    rw [List.length_map]
    exact withinLimit_eq_ok.1 hu
  | list es =>
    rw [expand] at h
    obtain ⟨hdenotes, hlimit⟩ := denotes_of_expandAll es h
    exact ⟨hdenotes, by simpa using hlimit (Nat.zero_le _)⟩
  | binary op left right =>
    cases op with
    | add =>
      rw [expand_sum] at h
      obtain ⟨xs, hxs, h⟩ := bind_eq_ok.1 h
      obtain ⟨ys, hys, h⟩ := bind_eq_ok.1 h
      obtain ⟨u, hu, h⟩ := bind_eq_ok.1 h
      have hpairs := mapM_eq_ok.1 h
      refine ⟨.sum (denotes_of_expand left hxs).1 (denotes_of_expand right hys).1 hpairs, ?_⟩
      rw [← hpairs.length_eq, List.length_product]
      exact withinLimit_eq_ok.1 hu
    | _ => exact hsingle rfl
  | _ => exact hsingle rfl

theorem denotes_of_expandAll (es : List Expr) {count : Nat} {vs : List Value}
    (h : expandAll vars count es = .ok vs) :
    Denotes vars (.list es) vs ∧ (count ≤ maxValues → count + vs.length ≤ maxValues) := by
  cases es with
  | nil =>
    rw [expandAll] at h
    cases h
    exact ⟨.nil, id⟩
  | cons e es =>
    rw [expandAll_cons] at h
    obtain ⟨us, hus, h⟩ := bind_eq_ok.1 h
    obtain ⟨u, hu, h⟩ := bind_eq_ok.1 h
    obtain ⟨ws, hws, h⟩ := bind_eq_ok.1 h
    cases h
    obtain ⟨hdenotes, hlimit⟩ := denotes_of_expandAll es hws
    refine ⟨.cons (denotes_of_expand e hus).1 hdenotes, fun _ => ?_⟩
    rw [List.length_append, ← Nat.add_assoc]
    exact hlimit (withinLimit_eq_ok.1 hu)

end

mutual

theorem exceeds_of_expand (e : Expr) {limit : Nat} (h : expand vars e = .error (.tooManyValues limit)) :
    Exceeds vars e := by
  have hsingle : e.isMany = false → Exceeds vars e := by
    intro hmany
    rw [expand_of_not_isMany hmany] at h
    obtain ⟨v, -, h⟩ := (unlimited_evaluate vars e).bind_eq_error h
    cases h
  cases e with
  | range first last =>
    rw [expand_range] at h
    obtain ⟨v, hv, h⟩ := (unlimited_evaluate vars first).bind_eq_error h
    obtain ⟨a, ha, h⟩ := (unlimited_rangeEnd v).bind_eq_error h
    obtain ⟨w, hw, h⟩ := (unlimited_evaluate vars last).bind_eq_error h
    obtain ⟨b, hb, h⟩ := (unlimited_rangeEnd w).bind_eq_error h
    rw [rangeEnd_eq_ok.1 ha] at hv
    rw [rangeEnd_eq_ok.1 hb] at hw
    rw [integers_eq] at h
    obtain h | ⟨_, _, h⟩ := bind_eq_error.1 h
    · exact .range hv hw (ascending_wordsBetween a b) (withinLimit_eq_error.1 h).1
    · cases h
  | list es =>
    rw [expand] at h
    exact exceeds_of_expandAll es .nil h
  | binary op left right =>
    cases op with
    | add =>
      rw [expand_sum] at h
      obtain h | ⟨xs, hxs, h⟩ := bind_eq_error.1 h
      · exact .left (exceeds_of_expand left h)
      have hleft := (denotes_of_expand left hxs).1
      obtain h | ⟨ys, hys, h⟩ := bind_eq_error.1 h
      · exact .right hleft (exceeds_of_expand right h)
      obtain h | ⟨_, _, h⟩ := bind_eq_error.1 h
      · exact .pairs hleft (denotes_of_expand right hys).1 (withinLimit_eq_error.1 h).1
      · obtain ⟨p, -, hp⟩ := mapM_eq_error h
        exact absurd hp (unlimited_applyBinary .add p.1 p.2 limit)
    | _ => exact hsingle rfl
  | _ => exact hsingle rfl

theorem exceeds_of_expandAll (es : List Expr) {before : List Expr} {vs : List Value} {limit : Nat}
    (hbefore : Denotes vars (.list before) vs)
    (h : expandAll vars vs.length es = .error (.tooManyValues limit)) :
    Exceeds vars (.list (before ++ es)) := by
  cases es with
  | nil =>
    rw [expandAll] at h
    cases h
  | cons e es =>
    rw [expandAll_cons] at h
    obtain h | ⟨us, hus, h⟩ := bind_eq_error.1 h
    · exact .item hbefore (exceeds_of_expand e h)
    have hitem : Denotes vars (.list [e]) (us ++ []) := .cons (denotes_of_expand e hus).1 .nil
    have hthrough := denotes_list_append hbefore hitem
    rw [List.append_nil] at hthrough
    have hsplit : before ++ e :: es = (before ++ [e]) ++ es := by simp
    rw [hsplit]
    rw [← List.length_append] at h
    obtain h | ⟨_, _, h⟩ := bind_eq_error.1 h
    · exact .items hthrough (withinLimit_eq_error.1 h).1
    obtain h | ⟨_, _, h⟩ := bind_eq_error.1 h
    · exact exceeds_of_expandAll es hthrough h
    · cases h

end

/-! ### What gives an expansion -/

/-- The computation gives the answer, or fails for too many values. -/
def Yields {α : Type} (r : Except ExprError α) (a : α) : Prop :=
  r = .ok a ∨ r = .error (.tooManyValues maxValues)

section Yields

variable {α β : Type} {r : Except ExprError α} {a : α} {k : α → Except ExprError β}

theorem Yields.bind {b : β} (h : Yields r a) (hk : Yields (k a) b) : Yields (r >>= k) b := by
  obtain rfl | rfl := h
  · exact hk
  · exact .inr rfl

theorem Yields.fails (h : Yields r a) (hk : k a = .error (.tooManyValues maxValues)) :
    (r >>= k) = .error (.tooManyValues maxValues) := by
  obtain rfl | rfl := h
  · exact hk
  · rfl

theorem yields_withinLimit (count : Nat) : Yields (withinLimit count) () := by
  unfold withinLimit
  split
  · exact .inl rfl
  · exact .inr rfl

end Yields

theorem expand_of_evaluate {e : Expr} {v : Value} (h : evaluate vars e = .ok v) :
    expand vars e = .ok [v] := by
  have hmany : e.isMany = false := Bool.eq_false_iff.2 fun hmany => evaluate_of_isMany hmany v h
  rw [expand_of_not_isMany hmany, h]
  rfl

theorem expand_range_of_evaluate {first last : Expr} {a b : Int64} {ns : List Int64}
    (hfirst : evaluate vars first = .ok (.int a)) (hlast : evaluate vars last = .ok (.int b))
    (h : Ascending a b ns) : expand vars (.range first last) =
      (withinLimit ns.length >>= fun _ => .ok (ns.map .int)) := by
  rw [expand_range, hfirst, h.unique (ascending_wordsBetween a b), ← integers_eq]
  change (evaluate vars last >>= fun w => rangeEnd w >>= fun b => integers a b) = _
  rw [hlast]
  rfl

theorem expand_of_denotes {e : Expr} {vs : List Value} (h : Denotes vars e vs) :
    Yields (expand vars e) vs ∧
      ∀ es, e = .list es → ∀ count, Yields (expandAll vars count es) vs := by
  induction h with
  | single h =>
    refine ⟨.inl (expand_of_evaluate h), ?_⟩
    rintro es rfl
    rw [evaluate_list] at h
    cases h
  | range hfirst hlast h =>
    refine ⟨?_, nofun⟩
    rw [expand_range_of_evaluate hfirst hlast h]
    exact (yields_withinLimit _).bind (.inl rfl)
  | nil =>
    have hall : ∀ count, Yields (expandAll vars count []) [] := fun count => .inl (by rw [expandAll])
    refine ⟨by rw [expand]; exact hall 0, ?_⟩
    rintro es h
    cases h
    exact hall
  | @cons e es vs ws _ _ ih ihs =>
    have hall : ∀ count, Yields (expandAll vars count (e :: es)) (vs ++ ws) := by
      intro count
      rw [expandAll_cons]
      exact ih.1.bind ((yields_withinLimit _).bind ((ihs.2 es rfl _).bind (.inl rfl)))
    refine ⟨by rw [expand]; exact hall 0, ?_⟩
    rintro es h
    cases h
    exact hall
  | sum _ _ h ihx ihy =>
    refine ⟨?_, nofun⟩
    rw [expand_sum]
    exact ihx.1.bind (ihy.1.bind ((yields_withinLimit _).bind (.inl (mapM_eq_ok.2 h))))

theorem withinLimit_of_lt {count : Nat} (h : maxValues < count) :
    withinLimit count = .error (.tooManyValues maxValues) := withinLimit_eq_error.2 ⟨h, rfl⟩

theorem expand_of_exceeds {e : Expr} (h : Exceeds vars e) :
    expand vars e = .error (.tooManyValues maxValues) := by
  induction h with
  | range hfirst hlast h hlimit =>
    rw [expand_range_of_evaluate hfirst hlast h, withinLimit_of_lt hlimit]
    rfl
  | item hbefore _ ih =>
    rw [expand, expandAll_append]
    refine ((expand_of_denotes hbefore).2 _ rfl 0).fails ?_
    rw [expandAll_cons, ih]
    rfl
  | @items before after vs hbefore hlimit =>
    rw [expand, expandAll_append]
    obtain h | h := (expand_of_denotes hbefore).2 _ rfl 0
    · have hwithin := (denotes_of_expandAll before h).2 (Nat.zero_le _)
      omega
    · rw [h]
      rfl
  | left _ ih =>
    rw [expand_sum, ih]
    rfl
  | right hleft _ ih =>
    rw [expand_sum]
    refine (expand_of_denotes hleft).1.fails ?_
    rw [ih]
    rfl
  | pairs hleft hright hlimit =>
    rw [expand_sum]
    refine (expand_of_denotes hleft).1.fails ((expand_of_denotes hright).1.fails ?_)
    rw [withinLimit_of_lt hlimit]
    rfl

theorem expand_eq_error_iff {e : Expr} :
    expand vars e = .error (.tooManyValues maxValues) ↔ Exceeds vars e :=
  ⟨exceeds_of_expand e, expand_of_exceeds⟩

theorem expand_eq_ok_iff {e : Expr} {vs : List Value} :
    expand vars e = .ok vs ↔ Denotes vars e vs ∧ ¬ Exceeds vars e := by
  constructor
  · intro h
    refine ⟨(denotes_of_expand e h).1, fun hexceeds => ?_⟩
    rw [expand_of_exceeds hexceeds] at h
    cases h
  · rintro ⟨hdenotes, hwithin⟩
    exact (expand_of_denotes hdenotes).1.resolve_right (mt (exceeds_of_expand e) hwithin)

end Expr

end ShardedSql
