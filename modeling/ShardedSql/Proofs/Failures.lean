import ShardedSql.Proofs.Checked
import ShardedSql.Proofs.Placed
import ShardedSql.Proofs.Histories
import ShardedSql.Render.Draft

/-! What a statement can fail of. The sharding router refuses statements for what they ask, never because
a name stands for no table rule or for no storage unit; rendering refuses a storage unit only if it is
not there. -/

namespace ShardedSql

/-- Every failure of the computation has `Q`. -/
def FailsAs {ε α : Type} (Q : ε → Prop) (x : Except ε α) : Prop := ∀ e, x = .error e → Q e

namespace FailsAs

variable {ε α β : Type} {Q : ε → Prop}

theorem ok (a : α) : FailsAs Q (.ok a) := fun _ h => nomatch h

theorem error {e : ε} (h : Q e) : FailsAs Q (.error e : Except ε α) := by
  intro e' he
  cases he
  exact h

theorem bind {x : Except ε α} {f : α → Except ε β} (hx : FailsAs Q x)
    (hf : ∀ a, FailsAs Q (f a)) : FailsAs Q (x >>= f) := by
  intro e he
  rcases bind_eq_error.1 he with he | ⟨a, -, he⟩
  · exact hx e he
  · exact hf a e he

/-- A computation that only goes on where it succeeds fails as its first part. -/
theorem bind_ok {x : Except ε α} {f : α → β} (hx : FailsAs Q x) :
    FailsAs Q (x >>= fun a => .ok (f a)) := hx.bind fun _ => ok _

theorem mapM {f : α → Except ε β} {l : List α} (h : ∀ a ∈ l, FailsAs Q (f a)) :
    FailsAs Q (l.mapM f) := by
  induction l with
  | nil => exact ok []
  | cons a l ih =>
    obtain ⟨ha, hl⟩ := List.forall_mem_cons.1 h
    rw [List.mapM_cons]
    exact ha.bind fun _ => (ih hl).bind_ok

theorem forM {f : α → Except ε Unit} {l : List α} (h : ∀ a ∈ l, FailsAs Q (f a)) :
    FailsAs Q (l.forM f) := by
  induction l with
  | nil => exact ok ()
  | cons a l ih =>
    obtain ⟨ha, hl⟩ := List.forall_mem_cons.1 h
    exact ha.bind fun _ => ih hl

section State

variable {σ : Type}

theorem run_bind {x : ExceptT ε (StateM σ) α} {f : α → ExceptT ε (StateM σ) β} {s : σ}
    (hx : FailsAs Q (x s).1) (hf : ∀ a s', FailsAs Q (f a s').1) : FailsAs Q ((x >>= f) s).1 := by
  rw [ShardedSql.run_bind]
  rcases hxs : x s with ⟨_ | a, s'⟩
  · intro e he
    cases he
    exact hx _ (congrArg Prod.fst hxs)
  · exact hf a s'

theorem run_mapM {f : α → ExceptT ε (StateM σ) β} {l : List α}
    (h : ∀ a ∈ l, ∀ s, FailsAs Q (f a s).1) (s : σ) : FailsAs Q (l.mapM f s).1 := by
  induction l generalizing s with
  | nil => exact ok []
  | cons a l ih =>
    obtain ⟨ha, hl⟩ := List.forall_mem_cons.1 h
    rw [List.mapM_cons]
    exact run_bind (ha s) fun _ s' => run_bind (ih hl s') fun _ _ => ok _

end State

end FailsAs

/-- The error says what is wrong with a statement, and not that a name stands for nothing. -/
def RouteError.IsRefusal : RouteError → Prop
  | .unknownStorageUnit _ | .missingTableRule _ => False
  | _ => True

/-- The computation refuses a statement for what it asks. -/
abbrev Refuses {α : Type} (x : Except RouteError α) : Prop := FailsAs RouteError.IsRefusal x

namespace Extraction

variable {rule : ShardingRule} {params : List Value}

theorem resolve_refuses (o : Operand) : Refuses (resolve params o) := by
  unfold resolve
  split
  · exact .ok _
  · split
    · exact .ok _
    · exact .error trivial

theorem constraint_refuses (c : Comparison) : Refuses (constraint params c) := by
  cases c with
  | between lower upper => exact (resolve_refuses lower).bind fun _ => (resolve_refuses upper).bind_ok
  | oneOf os => exact FailsAs.bind_ok (.mapM fun o _ => resolve_refuses o)
  | _ => exact (resolve_refuses _).bind_ok

theorem groupFrom_refuses (entries : List ColumnConstraint) (ps : List Predicate) :
    Refuses (groupFrom rule params entries ps) := by
  induction ps generalizing entries with
  | nil => exact .ok _
  | cons p ps ih =>
    rw [groupFrom]
    split
    · refine (constraint_refuses _).bind fun c => ?_
      split
      · exact ih _
      · exact .ok _
    · exact ih entries

theorem groupsFrom_refuses (merge : Bool) (alternatives : List Condition) (contradictions : Bool)
    (groups : List (List Predicate)) :
    Refuses (groupsFrom rule params merge alternatives contradictions groups) := by
  induction groups generalizing alternatives contradictions with
  | nil => exact .ok _
  | cons group groups ih =>
    rw [groupsFrom]
    refine (groupFrom_refuses [] group).bind fun outcome => ?_
    cases outcome with
    | alternative c => exact ih _ _
    | unconstrained => exact .ok _
    | contradiction => exact ih _ _

theorem rowEntries_refuses (table : String) (l : List (String × Operand)) :
    Refuses (rowEntries rule params table l) := by
  induction l with
  | nil => exact .ok []
  | cons e l ih =>
    obtain ⟨column, o⟩ := e
    rw [rowEntries]
    split
    · exact (resolve_refuses o).bind fun _ => ih.bind_ok
    · exact ih

/-- Keys are always there. -/
theorem row_refuses (data : InsertData) (strategy : Option KeyStrategy) (operands : List Operand)
    (keys : KeyCounters) : Refuses (row rule params data strategy operands keys).1 := by
  refine FailsAs.run_bind (rowEntries_refuses data.table _) fun entries s => ?_
  cases strategy <;> exact .ok _

theorem insertion_refuses (data : InsertData) (keys : KeyCounters) :
    Refuses (insertion rule params data keys).1 := by
  unfold insertion
  cases rule.table? data.table with
  | none => exact .ok _
  | some t => exact FailsAs.run_bind (.run_mapM (fun _ _ s => row_refuses _ _ _ s) keys) fun _ _ => .ok _

theorem extract_refuses (query : Query) (keys : KeyCounters) :
    Refuses (extract rule query keys).1 := by
  cases hneeds : query.statement.needsConditions with
  | false =>
    rw [extract, hneeds]
    exact .ok _
  | true =>
    by_cases hrows : query.statement.kind = .insert → query.statement.insert = none
    · rw [extract_where keys hneeds hrows]
      exact (groupsFrom_refuses _ _ _ _).bind_ok
    · push Not at hrows
      obtain ⟨hkind, hinsert⟩ := hrows
      obtain ⟨data, hdata⟩ := Option.ne_none_iff_exists'.1 hinsert
      rw [extract, hneeds, hkind, hdata]
      exact insertion_refuses data keys

end Extraction

namespace Inline

theorem target_refuses (t : Template) (columns : String) (vars : Bindings) :
    Refuses (target t columns vars) := by
  unfold target
  split
  · exact .ok _
  · exact .error trivial
  · exact .error trivial

end Inline

theorem InlineAlgorithm.precise_refuses (a : InlineAlgorithm) (column : String) (v : Value) :
    Refuses (a.precise column v) := by
  unfold precise
  split
  · exact .error trivial
  · split
    · exact .error trivial
    · exact Inline.target_refuses _ _ _

theorem Modulo.key_refuses (column : String) (v : Value) : Refuses (key column v) := by
  unfold key
  split
  · exact .error trivial
  · exact .ok _
  · split
    · exact .ok _
    · exact .error trivial
  · exact .error trivial

namespace StandardAlgorithm

theorem precise_refuses (a : StandardAlgorithm) (available : List String) (column : String)
    (v : Value) : Refuses (a.precise available column v) := by
  cases a with
  | inline a => exact (a.precise_refuses column v).bind_ok
  | mod count => exact (Modulo.key_refuses column v).bind_ok
  | hashMod count =>
    unfold precise Modulo.hashed
    dsimp only
    split
    · exact .error trivial
    · exact .ok _

theorem range_refuses (a : StandardAlgorithm) (available : List String) (r : ValueRange) :
    Refuses (a.range available r) := by
  cases a with
  | inline a =>
    unfold range InlineAlgorithm.range
    dsimp only
    split
    · exact .ok _
    · exact .error trivial
  | mod count => exact .ok _
  | hashMod count => exact .ok _

end StandardAlgorithm

theorem ComplexInlineAlgorithm.targets_refuses (a : ComplexInlineAlgorithm)
    (available : List String) (v : ComplexValue) : Refuses (a.targets available v) := by
  unfold targets
  split
  · split
    · exact .ok _
    · exact .error trivial
  · split
    · exact .error trivial
    · split
      · exact .error trivial
      · exact FailsAs.bind_ok (.mapM fun _ _ => Inline.target_refuses _ _ _)

theorem HintInlineAlgorithm.targets_refuses (a : HintInlineAlgorithm) (values : List Value) :
    Refuses (a.targets values) := by
  refine FailsAs.bind_ok (.mapM fun v _ => ?_)
  unfold precise
  split
  · exact .error trivial
  · exact Inline.target_refuses _ _ _

theorem Strategy.targets_refuses (s : Strategy) (available : List String) (table : String)
    (condition : Option Condition) (hints : Option (List Value)) :
    Refuses (s.targets available table condition hints) := by
  cases s with
  | everywhere => exact .ok _
  | standard column a =>
    unfold targets
    dsimp only
    split
    · exact .ok _
    · refine FailsAs.bind_ok ?_
      unfold constrained
      split
      · exact FailsAs.bind_ok (.mapM fun v _ => a.precise_refuses _ _ v)
      · exact a.range_refuses _ _
  | complex columns a =>
    unfold targets
    dsimp only
    split
    · exact .ok _
    · exact (a.targets_refuses _ _).bind_ok
  | hint a =>
    unfold targets
    dsimp only
    split
    · exact .ok _
    · exact (a.targets_refuses _).bind_ok

namespace Placement

variable {rule : ShardingRule} {query : Query} {conditions : Conditions}

theorem nodesUnder_refuses (hint : Hint) (t : TableRule) (condition : Option Condition) :
    Refuses (nodesUnder rule hint t condition) :=
  (Strategy.targets_refuses _ _ _ _ _).bind fun _ =>
    FailsAs.bind_ok (.mapM fun _ _ => (Strategy.targets_refuses _ _ _ _ _).bind_ok)

theorem nodesOf_refuses (hint : Hint) (t : TableRule) (conditions : Conditions) :
    Refuses (nodesOf rule hint t conditions) := by
  unfold nodesOf
  split
  · exact (nodesUnder_refuses _ _ _).bind_ok
  · exact .mapM fun _ _ => nodesUnder_refuses _ _ _

theorem piece_refuses (lead : Lead) (node : DataNode) : Refuses (piece rule lead node) := by
  refine FailsAs.bind_ok (.mapM fun partner _ => ?_)
  unfold pairing
  split
  · exact .ok _
  · exact .error trivial

theorem checkRows_refuses (table : String) (rows : List (List DataNode)) :
    Refuses (checkRows table rows) := by
  unfold checkRows
  split
  · exact .error trivial
  · exact .ok _

/-- A lead that is a sharding table has its rule. -/
theorem placeLead_refuses {lead : Lead} (hlead : rule.isSharding lead.table = true) :
    Refuses (placeLead rule query conditions lead) := by
  obtain ⟨t, ht⟩ := Option.isSome_iff_exists.1 hlead
  unfold placeLead
  rw [ht]
  refine (nodesOf_refuses _ _ _).bind fun lists => ?_
  dsimp only
  split
  · exact (checkRows_refuses _ _).bind fun _ => FailsAs.bind_ok (.mapM fun _ _ => piece_refuses _ _)
  · exact FailsAs.bind_ok (.mapM fun _ _ => piece_refuses _ _)

theorem place_refuses (topology : Topology) (conditions : Conditions) {tables : List String}
    (htables : ∀ t ∈ tables, rule.isSharding t = true) :
    Refuses (place rule query topology conditions tables) := by
  unfold place
  split
  · exact .ok _
  · split
    · exact .ok _
    · split
      · refine FailsAs.bind_ok (.mapM fun table htable => ?_)
        obtain ⟨t, ht⟩ := Option.isSome_iff_exists.1 (htables table htable)
        rw [ht]
        exact .ok _
      · exact FailsAs.bind_ok (.mapM fun lead hlead =>
          placeLead_refuses (htables _ (mem_leads hlead).1))

end Placement

namespace Validator

theorem dml_refuses (rule : ShardingRule) (query : Query) (conditions : Conditions) (route : Route) :
    Refuses ((dml rule).before query conditions) ∧ Refuses ((dml rule).after query route) := by
  constructor
  · change Refuses (oneBindingGroup rule query.statement)
    unfold oneBindingGroup
    split
    · exact .error trivial
    · exact .ok _
  · change Refuses (limitOnOneUnit query.statement route)
    unfold limitOnOneUnit
    split
    · exact .error trivial
    · exact .ok _

end Validator

theorem Auditor.check_refuses (a : Auditor) (query : Query) (conditions : Conditions)
    (tables : List String) : Refuses (a.check query conditions tables) := by
  unfold check
  dsimp only
  split
  · exact .error trivial
  · exact .ok _

/-- With validators that only refuse statements the sharding router does no more than that. -/
theorem ShardingRouter.answer_refuses {r : ShardingRouter} (query : Query) (topology : Topology)
    (keys : KeyCounters) (hvalidators : ∀ v ∈ r.validators, ∀ conditions route,
      Refuses (v.before query conditions) ∧ Refuses (v.after query route)) :
    Refuses (r.answer query topology keys) := by
  refine (Extraction.extract_refuses query keys).bind fun e => ?_
  have hscreen : Refuses (r.screen query e.conditions (r.rule.shardingTables query.statement.tables)) := by
    have hbefore : Refuses (r.validators.forM fun v => v.before query e.conditions) :=
      .forM fun v hv => (hvalidators v hv e.conditions .empty).1
    unfold screen
    split
    · exact FailsAs.bind (.forM fun a _ => a.2.check_refuses _ _ _) fun _ => hbefore
    · exact hbefore
  refine hscreen.bind fun _ => ?_
  refine (Placement.place_refuses _ _ fun t ht => (mem_shardingTables ht).2).bind fun placed => ?_
  exact FailsAs.bind_ok (.forM fun v hv => (hvalidators v hv e.conditions _).2)

namespace Draft

variable {draft : Draft}

theorem textOn_misplaced (unit : RouteUnit) : FailsAs RenderError.IsMisplaced (draft.textOn unit) := by
  intro e he
  rcases bind_eq_error.1 he with he | ⟨_, -, he⟩
  · exact SqlToken.validate_error he
  · rcases bind_eq_error.1 he with he | ⟨_, -, he⟩
    · exact SqlToken.renderWithin_error he
    · cases he

/-- The statements for one data source are for its units. -/
theorem onSource_units {query : Query} {route : Route} {units : List RouteUnit}
    {entries : List (RouteUnit × BoundSql)} (h : draft.onSource query route units = .ok entries) :
    ∀ e ∈ entries, e.1 ∈ units := by
  intro e he
  unfold onSource at h
  split at h
  · cases h
    exact absurd he List.not_mem_nil
  · split at h
    · obtain ⟨sql, -, h⟩ := bind_eq_ok.1 h
      cases h
      rw [List.mem_singleton.1 he]
      exact List.mem_cons_self
    · obtain ⟨unit, hunit, hsql⟩ := (mem_of_mapM_ok h e).1 he
      obtain ⟨sql, -, hsql⟩ := bind_eq_ok.1 hsql
      cases hsql
      exact hunit

theorem onSource_misplaced (query : Query) (route : Route) (units : List RouteUnit) :
    FailsAs RenderError.IsMisplaced (draft.onSource query route units) := by
  unfold onSource
  split
  · exact .ok _
  · split
    · exact (FailsAs.bind_ok (.mapM fun u _ => draft.textOn_misplaced u)).bind_ok
    · exact .mapM fun u _ => (draft.textOn_misplaced u).bind_ok

theorem converted_finds {conversion : Conversion} {query : Query} {topology : Topology}
    {entry : RouteUnit × BoundSql} (h : topology.contains entry.1.dataSource = true) (name : String) :
    FailsAs (· ≠ .unknownStorageUnit name) (converted conversion query topology entry) := by
  obtain ⟨dialect, hdialect⟩ := Option.isSome_iff_exists.1 h
  unfold converted Topology.dialect?
  rw [hdialect]
  dsimp only
  split
  · exact .ok _
  · exact .error (by simp)

/-- A route over storage units that are there is not refused for one of them. -/
theorem render_finds {conversion : Conversion} {query : Query} {route : Route} {topology : Topology}
    (hunits : ∀ u ∈ route.units, topology.contains u.dataSource = true) (name : String) :
    draft.render conversion query route topology ≠ .error (.unknownStorageUnit name) := by
  intro h
  rcases bind_eq_error.1 h with h | ⟨groups, hgroups, h⟩
  · exact FailsAs.mapM (fun group _ => draft.onSource_misplaced query route group.2) _ h
  · refine FailsAs.mapM (fun entry hentry => converted_finds ?_ name) _ h rfl
    obtain ⟨entries, hentries, hmem⟩ := List.mem_flatten.1 hentry
    obtain ⟨group, hgroup, hon⟩ := (mem_of_mapM_ok hgroups entries).1 hentries
    refine hunits _ ((groupOn_perm RouteUnit.dataSource route.units).subset ?_)
    exact List.mem_flatten.2 ⟨_, List.mem_map_of_mem hgroup, onSource_units hon entry hmem⟩

end Draft

end ShardedSql
