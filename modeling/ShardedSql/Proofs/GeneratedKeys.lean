import ShardedSql.Proofs.Renaming

/-! Keys that an insertion takes place its rows as written ones do. A row that takes a key has, behind its
own entries, the entry that the key would have in the last column; so the insertion with the keys written
out has the same conditions, and what comes behind the extraction does not ask where they came from. -/

namespace ShardedSql

namespace KeyCounters

variable (counters : KeyCounters) (generator : String)

/-- The key that the generator hands out next. -/
def next : Int64 := ((counters.get? generator).getD ⟨1⟩).next

theorem next_take : (counters.take generator).2.next generator = counters.next generator + 1 := by
  change ((((counters.insert generator _).get? generator).getD ⟨1⟩).next) = _
  rw [NameMap.get?_insert_self]
  rfl

end KeyCounters

/-- As many consecutive keys, from the first one on; they wrap at 64 bits. -/
def consecutiveKeys (first : Int64) (count : Nat) : List Value :=
  (List.range count).map fun i => .int (first + Int64.ofNat i)

theorem consecutiveKeys_succ (first : Int64) (count : Nat) :
    consecutiveKeys first (count + 1) = .int first :: consecutiveKeys (first + 1) count := by
  unfold consecutiveKeys
  rw [List.range_succ_eq_map, List.map_cons, List.map_map]
  congr 1
  · simp
  · refine List.map_congr_left fun i _ => ?_
    rw [Function.comp_apply, Nat.succ_eq_add_one, Int64.ofNat_add, Int64.add_assoc,
      Int64.add_comm (Int64.ofNat i)]
    rfl

namespace InsertData

/-- The insertion with one more column, in which each row has its key. -/
def keyed (data : InsertData) (column : String) (keys : List Value) : InsertData :=
  { data with
    columns := data.columns ++ [column]
    rows := data.rows.zipWith (fun row key => row ++ [.literal key]) keys }

/-- Every row has an operand for each column. -/
def Filled (data : InsertData) : Prop := ∀ row ∈ data.rows, row.length = data.columns.length

instance (data : InsertData) : Decidable data.Filled :=
  inferInstanceAs (Decidable (∀ row ∈ data.rows, row.length = data.columns.length))

end InsertData

/-- The same statement with the keys written out, whatever text that has. -/
def Query.keyed (query : Query) (sql column : String) (keys : List Value) : Query :=
  { query with
    sql := sql
    statement := { query.statement with insert := query.statement.insert.map (·.keyed column keys) } }

namespace Extraction

variable {rule : ShardingRule} {params : List Value} {data : InsertData} {k : KeyStrategy}

/-- The entry of a key, if rows are sharded by its column. -/
def keyEntry (rule : ShardingRule) (table column : String) (key : Value) : List ColumnConstraint :=
  if rule.isShardingColumn table column then [⟨table, column, .ofValues [key]⟩] else []

/-- A key in the last column has its entry behind the others. -/
theorem rowEntries_keyed (table column : String) (key : Value) (l : List (String × Operand)) :
    rowEntries rule params table (l ++ [(column, .literal key)]) =
      (rowEntries rule params table l).map (· ++ keyEntry rule table column key) := by
  induction l with
  | nil =>
    simp only [List.nil_append, rowEntries, keyEntry]
    split <;> rfl
  | cons e l ih =>
    rw [List.cons_append, rowEntries, rowEntries, ih]
    split
    · cases resolve params e.2 with
      | error err => rfl
      | ok v => cases rowEntries rule params table l <;> rfl
    · rfl

theorem liftExcept_apply {α : Type} (r : Except RouteError α) (s : KeyCounters) :
    row.liftExcept r s = (r, s) := rfl

/-- What a row comes to that takes a key. -/
theorem row_taking (operands : List Operand) (s : KeyCounters) :
    row rule params data (some k) operands s =
      match rowEntries rule params data.table (data.columns.zip operands) with
      | .error e => (.error e, s)
      | .ok entries =>
        (.ok (⟨entries ++ keyEntry rule data.table k.column (.int (s.next k.generator))⟩,
          [.int (s.next k.generator)]), (s.take k.generator).2) := by
  unfold row
  rw [run_bind, liftExcept_apply]
  cases rowEntries rule params data.table (data.columns.zip operands) <;> rfl

/-- And what it comes to with the key written out. -/
theorem row_written {operands : List Operand} (hlength : operands.length = data.columns.length)
    (key : Value) (keys : List Value) (s : KeyCounters) :
    row rule params (data.keyed k.column keys) none (operands ++ [.literal key]) s =
      ((rowEntries rule params data.table (data.columns.zip operands)).map
        fun entries => (⟨entries ++ keyEntry rule data.table k.column key⟩, []), s) := by
  have hzip : (data.keyed k.column keys).columns.zip (operands ++ [.literal key]) =
      data.columns.zip operands ++ [(k.column, .literal key)] :=
    List.zip_append hlength.symm
  have htable : (data.keyed k.column keys).table = data.table := rfl
  unfold row
  rw [run_bind, hzip, htable, rowEntries_keyed, liftExcept_apply]
  cases rowEntries rule params data.table (data.columns.zip operands) <;> rfl

/-- All rows: with the keys written out they come to the same entries, and they take the keys in turn. -/
theorem rows_keyed (rule : ShardingRule) (params : List Value) (k : KeyStrategy)
    {rows : List (List Operand)} (hrows : ∀ row ∈ rows, row.length = data.columns.length)
    (keys : List Value) (s s' : KeyCounters) :
    ((rows.zipWith (fun row key => row ++ [.literal key])
        (consecutiveKeys (s.next k.generator) rows.length)).mapM
          (row rule params (data.keyed k.column keys) none) s').1 =
        (rows.mapM (row rule params data (some k)) s).1.map (·.map fun r => (r.1, [])) ∧
      ∀ taken, (rows.mapM (row rule params data (some k)) s).1 = .ok taken →
        taken.flatMap (·.2) = consecutiveKeys (s.next k.generator) rows.length := by
  induction rows generalizing s with
  | nil =>
    refine ⟨rfl, fun taken h => ?_⟩
    cases h
    rfl
  | cons operands rows ih =>
    obtain ⟨hlength, hrest⟩ := List.forall_mem_cons.1 hrows
    rw [List.length_cons, consecutiveKeys_succ, List.zipWith_cons_cons, List.mapM_cons, List.mapM_cons,
      run_bind, run_bind, row_taking, row_written hlength]
    cases rowEntries rule params data.table (data.columns.zip operands) with
    | error e => exact ⟨rfl, fun _ h => nomatch h⟩
    | ok entries =>
      obtain ⟨hwritten, htaken⟩ := ih hrest (s.take k.generator).2
      rw [KeyCounters.next_take] at hwritten htaken
      dsimp only [Except.map]
      rw [run_bind, run_bind]
      generalize (rows.zipWith _ _).mapM (row rule params (data.keyed k.column keys) none) s' = written
        at hwritten ⊢
      generalize rows.mapM (row rule params data (some k)) (s.take k.generator).2 = rest
        at hwritten htaken ⊢
      obtain ⟨_ | rest, _⟩ := rest <;> obtain ⟨_ | written, _⟩ := written <;> cases hwritten
      · exact ⟨rfl, fun _ h => nomatch h⟩
      · refine ⟨rfl, fun taken h => ?_⟩
        cases h
        exact congrArg (_ :: ·) (htaken rest rfl)

/-- What is extracted from an insertion comes from its rows. -/
theorem extract_rows {query : Query} {t : TableRule} (hkind : query.statement.kind = .insert)
    (hinsert : query.statement.insert = some data) (ht : rule.table? data.table = some t)
    (s : KeyCounters) :
    (extract rule query s).1 =
      (data.rows.mapM (row rule query.params data (keyStrategy? t data.columns)) s).1.map
        fun rows => ⟨.of (rows.map (·.1)) false, rows.flatMap (·.2)⟩ := by
  have hneeds : query.statement.needsConditions = true := by
    rw [Statement.needsConditions, hkind]
    rfl
  rw [extract, hneeds, hkind, hinsert]
  change (insertion rule query.params data s).1 = _
  rw [insertion, ht]
  dsimp only
  rw [run_bind]
  rcases data.rows.mapM (row rule query.params data (keyStrategy? t data.columns)) s with
    ⟨_ | rows, s'⟩ <;> rfl

/-- The insertion with its keys written out has the conditions of the one that takes them. -/
theorem extract_keyed {query : Query} {t : TableRule} (sql : String)
    (hkind : query.statement.kind = .insert) (hinsert : query.statement.insert = some data)
    (ht : rule.table? data.table = some t) (hk : t.keyStrategy = some k)
    (homits : ∀ column ∈ data.columns, Text.sameName column k.column = false) (hfilled : data.Filled)
    (s s' : KeyCounters) :
    (extract rule (query.keyed sql k.column
        (consecutiveKeys (s.next k.generator) data.rows.length)) s').1 =
        (extract rule query s).1.map (fun e => { e with generatedKeys := [] }) ∧
      ∀ e, (extract rule query s).1 = .ok e →
        e.generatedKeys = consecutiveKeys (s.next k.generator) data.rows.length := by
  have htakes : keyStrategy? t data.columns = some k := by
    have hnone : data.columns.any (Text.sameName · k.column) = false := by
      simpa using homits
    rw [keyStrategy?, hk, Option.filter_some, hnone, Bool.not_false, if_pos rfl]
  have hgiven : keyStrategy? t (data.columns ++ [k.column]) = none := by
    have hany : (data.columns ++ [k.column]).any (Text.sameName · k.column) = true := by
      simp [Text.sameName_refl]
    rw [keyStrategy?, hk, Option.filter_some, hany, Bool.not_true, if_neg Bool.false_ne_true]
  generalize hkeys : consecutiveKeys (s.next k.generator) data.rows.length = keys
  have hinsert' : (query.keyed sql k.column keys).statement.insert = some (data.keyed k.column keys) := by
    simp [Query.keyed, hinsert]
  obtain ⟨hwritten, htaken⟩ := rows_keyed rule query.params k hfilled keys s s'
  rw [hkeys] at hwritten htaken
  have hkind' : (query.keyed sql k.column keys).statement.kind = .insert := hkind
  rw [extract_rows hkind' hinsert' ht, extract_rows hkind hinsert ht, htakes]
  change Except.map _ (((data.rows.zipWith _ keys).mapM (row rule query.params (data.keyed k.column keys)
    (keyStrategy? t (data.columns ++ [k.column])))) s').1 = _ ∧ _
  rw [hgiven, hwritten]
  cases htaken' : (data.rows.mapM (row rule query.params data (some k)) s).1 with
  | error e => exact ⟨rfl, fun _ h => nomatch h⟩
  | ok taken =>
    refine ⟨?_, fun e he => ?_⟩
    · simp [Except.map, Function.comp_def]
    · cases he
      exact htaken taken htaken'

end Extraction

/-- The validator lets every insertion pass. -/
def Validator.PassesInsertions (v : Validator) : Prop :=
  ∀ query : Query, query.statement.kind = .insert →
    (∀ conditions, v.before query conditions = .ok ()) ∧ ∀ route, v.after query route = .ok ()

theorem Validator.dml_passesInsertions (rule : ShardingRule) : (Validator.dml rule).PassesInsertions := by
  intro query hkind
  constructor
  · intro conditions
    change oneBindingGroup rule query.statement = .ok ()
    rw [oneBindingGroup, hkind]
    rfl
  · intro route
    change limitOnOneUnit query.statement route = .ok ()
    rw [limitOnOneUnit, hkind]
    rfl

/-- The route as it is without the keys it handed out. -/
def Route.keyless (route : Route) : Route := { route with generatedKeys := [] }

namespace ShardingRouter

variable {r : ShardingRouter} {query : Query} {topology : Topology}

theorem screen_insertion (hpasses : ∀ v ∈ r.validators, v.PassesInsertions)
    (hkind : query.statement.kind = .insert) (conditions : Conditions) (tables : List String) :
    r.screen query conditions tables = .ok () := by
  have haudit : ∀ a ∈ r.rule.activeAuditors query.hint, a.2.check query conditions tables = .ok () := by
    intro a _
    rw [Auditor.check, hkind]
    rfl
  unfold screen
  rw [hkind]
  change ((r.rule.activeAuditors query.hint).forM fun a => a.2.check query conditions tables) >>= _ = _
  rw [forM_eq_ok.2 haudit]
  exact forM_eq_ok.2 fun v hv => (hpasses v hv query hkind).1 conditions

/-- Behind the extraction an insertion is placed, and nothing else is asked of it. -/
theorem answer_insertion (hpasses : ∀ v ∈ r.validators, v.PassesInsertions)
    (hkind : query.statement.kind = .insert) (keys : KeyCounters) :
    r.answer query topology keys = (Extraction.extract r.rule query keys).1 >>= fun e =>
      (Placement.place r.rule query topology (effective query e.conditions)
        (r.rule.shardingTables query.statement.tables)).map
          fun placed => { placed with generatedKeys := e.generatedKeys } := by
  have hafter (route : Route) : (r.validators.forM fun v => v.after query route) = .ok () :=
    forM_eq_ok.2 fun v hv => (hpasses v hv query hkind).2 route
  unfold answer
  simp only [screen_insertion hpasses hkind, hafter, bind, Except.bind]
  rfl

/-- The rule alone answers the insertion with the keys written out as the one that takes them. -/
theorem answer_keyed (topology : Topology) (hpasses : ∀ v ∈ r.validators, v.PassesInsertions)
    {data : InsertData} {t : TableRule} {k : KeyStrategy} (sql : String) (hkind : query.statement.kind = .insert)
    (hinsert : query.statement.insert = some data) (ht : r.rule.table? data.table = some t)
    (hk : t.keyStrategy = some k)
    (homits : ∀ column ∈ data.columns, Text.sameName column k.column = false) (hfilled : data.Filled)
    (s s' : KeyCounters) :
    r.answer (query.keyed sql k.column (consecutiveKeys (s.next k.generator) data.rows.length)) topology
        s' = (r.answer query topology s).map Route.keyless ∧
      ∀ route, r.answer query topology s = .ok route →
        route.generatedKeys = consecutiveKeys (s.next k.generator) data.rows.length := by
  obtain ⟨hwritten, htaken⟩ := Extraction.extract_keyed sql hkind hinsert ht hk homits hfilled s s'
  generalize consecutiveKeys (s.next k.generator) data.rows.length = keys at hwritten htaken ⊢
  have hplace (e : Extracted) : Placement.place r.rule (query.keyed sql k.column keys)
      topology (effective (query.keyed sql k.column keys) e.conditions)
        (r.rule.shardingTables (query.keyed sql k.column keys).statement.tables) =
      Placement.place r.rule query topology (effective query e.conditions)
        (r.rule.shardingTables query.statement.tables) := rfl
  have hkind' : (query.keyed sql k.column keys).statement.kind = .insert := hkind
  rw [answer_insertion hpasses hkind', answer_insertion hpasses hkind, hwritten]
  cases he : (Extraction.extract r.rule query s).1 with
  | error err => exact ⟨rfl, fun _ h => nomatch h⟩
  | ok e =>
    have hkeys : e.generatedKeys = keys := htaken e he
    change Except.map _ (Placement.place r.rule (query.keyed sql k.column keys) topology _ _) =
      (Except.map _ (Placement.place r.rule query topology _ _)).map _ ∧ ∀ route,
        Except.map _ (Placement.place r.rule query topology _ _) = .ok route → _
    rw [hplace]
    cases Placement.place r.rule query topology (effective query e.conditions)
      (r.rule.shardingTables query.statement.tables) with
    | error err => exact ⟨rfl, fun _ h => nomatch h⟩
    | ok placed =>
      refine ⟨rfl, fun route h => ?_⟩
      cases h
      exact hkeys

end ShardingRouter

namespace Routing

variable {topology : Topology} {route : Route}

theorem fallback_keyless (topology : Topology) (route : Route) :
    fallback topology route.keyless = (fallback topology route).keyless := by
  unfold fallback Route.add
  cases topology.single? with
  | none => rfl
  | some name =>
    dsimp only
    rw [apply_ite Route.keyless, apply_ite Route.keyless]
    rfl

theorem fallback_generatedKeys (topology : Topology) (route : Route) :
    (fallback topology route).generatedKeys = route.generatedKeys := by
  rw [fallback_eq]

/-- The checks at the end do not look at the keys, and leave them. -/
theorem finish_keyless (topology : Topology) (route : Route) :
    finish topology route.keyless = (finish topology route).map Route.keyless := by
  have hdedup : (fallback topology route).keyless.dedup = (fallback topology route).dedup.keyless := rfl
  have hunits : (fallback topology route).dedup.keyless.units = (fallback topology route).dedup.units := rfl
  rw [finish, finish, fallback_keyless, hdedup, hunits]
  cases (fallback topology route).dedup.units.find? fun u => !topology.contains u.dataSource <;> rfl

theorem finish_generatedKeys {finished : Route} (h : finish topology route = .ok finished) :
    finished.generatedKeys = route.generatedKeys := by
  obtain ⟨-, rfl⟩ := finish_eq_ok.1 h
  exact fallback_generatedKeys topology route

end Routing

open ShardingRouter in
/-- An insertion that leaves the key column out, behind any other statements and whatever the generator
has handed out: where it is routed, it takes one key for each row, in turn; and with these keys in one
more column it is routed to the same units and its rows to the same data nodes, without a new key, or it
fails as before. The route engine over the sharding router keeps to this. -/
theorem generated_keys_route_as_written (r : ShardingRouter)
    (hpasses : ∀ v ∈ r.validators, v.PassesInsertions) (query : Query) (sql : String)
    {topology : Topology} {data : InsertData} {t : TableRule} {k : KeyStrategy} {parse : Reading}
    {s s' : ShardingState} (hkind : query.statement.kind = .insert)
    (hinsert : query.statement.insert = some data) (ht : r.rule.table? data.table = some t)
    (hk : t.keyStrategy = some k)
    (homits : ∀ column ∈ data.columns, Text.sameName column k.column = false) (hfilled : data.Filled)
    {keys : List Value} (hkeys : keys = consecutiveKeys (s.keys.next k.generator) data.rows.length)
    (hs : r.Reached topology parse s) (hs' : r.Reached topology parse s')
    (hread : query.statement = parse query.sql)
    (hread' : (query.keyed sql k.column keys).statement = parse sql) :
    ((∀ route, (r.route query topology s).1 = .ok route → route.generatedKeys = keys) ∧
      (r.route (query.keyed sql k.column keys) topology s').1 =
        (r.route query topology s).1.map Route.keyless) ∧
    ∀ slot u u', query.hint.dataSource = none → u.sharding slot = s → u'.sharding slot = s' →
      (∀ route, (Routing.route [.ofSharding r slot] query topology u).1 = .ok route →
        route.generatedKeys = keys) ∧
      (Routing.route [.ofSharding r slot] (query.keyed sql k.column keys) topology u').1 =
        (Routing.route [.ofSharding r slot] query topology u).1.map Route.keyless := by
  obtain ⟨hwritten, htaken⟩ := answer_keyed topology hpasses sql hkind hinsert ht hk homits hfilled s.keys
    s'.keys
  rw [← hkeys] at hwritten htaken
  have hfirst : (r.route query topology s).1 = r.answer query topology s.keys :=
    (route_faithful hread hs.faithful).1
  have hsecond : (r.route (query.keyed sql k.column keys) topology s').1 =
      r.answer (query.keyed sql k.column keys) topology s'.keys :=
    (route_faithful hread' hs'.faithful).1
  refine ⟨⟨?_, ?_⟩, ?_⟩
  · rw [hfirst]
    exact htaken
  · rw [hfirst, hsecond]
    exact hwritten
  · rintro slot u u' hhint rfl rfl
    have hhint' : (query.keyed sql k.column keys).hint.dataSource = none := hhint
    have hengine : (Routing.route [.ofSharding r slot] query topology u).1 =
        (r.route query topology (u.sharding slot)).1 >>= Routing.finish topology :=
      Routing.route_chain r slot none hhint u
    have hengine' : (Routing.route [.ofSharding r slot] (query.keyed sql k.column keys) topology u').1 =
        (r.route (query.keyed sql k.column keys) topology (u'.sharding slot)).1 >>=
          Routing.finish topology :=
      Routing.route_chain r slot none hhint' u'
    rw [hfirst] at hengine
    rw [hsecond, hwritten] at hengine'
    rw [hengine, hengine']
    cases hanswer : r.answer query topology (u.sharding slot).keys with
    | error e => exact ⟨(fun _ h => nomatch h), rfl⟩
    | ok sharded =>
      refine ⟨fun route h => ?_, Routing.finish_keyless topology sharded⟩
      exact (Routing.finish_generatedKeys h).trans (htaken sharded hanswer)

/-- Orders that are numbered by a generator and sharded by their numbers. -/
def countedOrders : ShardingRouter where
  rule := ShardingRule.empty.withTable { orderTable with keyStrategy := some ⟨"order_id", "numbers"⟩ }
  validators := [.dml orders]

def insertTwoOrders : Query where
  sql := "INSERT INTO t_order (user_id) VALUES (?), (4)"
  statement := .ofInsert ⟨"t_order", ["user_id"], [[.parameter 0], [.literal (.int 4)]]⟩
  params := [.int 3]
  hint := .none

/-- The last number before the generator wraps, and the first one behind. -/
def lastNumbers : List Value := [.int Int64.maxValue, .int Int64.minValue]

/-- The same two orders with their numbers. -/
def insertNumbered : Query :=
  insertTwoOrders.keyed ("INSERT INTO t_order (user_id, order_id) " ++
    "VALUES (?, 9223372036854775807), (4, -9223372036854775808)") "order_id" lastNumbers

def twoOrders (keys : List Value) : Route :=
  ⟨[⟨⟨"ds_1", "ds_1"⟩, [⟨"t_order", "t_order_1"⟩]⟩, ⟨⟨"ds_0", "ds_0"⟩, [⟨"t_order", "t_order_0"⟩]⟩],
    [[⟨"ds_1", "t_order_1"⟩], [⟨"ds_0", "t_order_0"⟩]], keys⟩

def ordersReading : Reading := fun sql =>
  if sql = insertTwoOrders.sql then insertTwoOrders.statement else insertNumbered.statement

/-- The generator is at its last number. -/
def nearlyWrapped : ShardingState := ⟨.ofList [("numbers", ⟨Int64.maxValue⟩)], none⟩

/-- The generator wraps between the two rows, and then the rows come with their numbers. -/
theorem generated_keys_route_as_written_wrapped :
    insertTwoOrders.statement = ordersReading insertTwoOrders.sql ∧
      insertNumbered.statement = ordersReading insertNumbered.sql ∧
      lastNumbers = consecutiveKeys (nearlyWrapped.keys.next "numbers") 2 ∧
      (countedOrders.route insertTwoOrders ⟨"shop", ∅⟩ nearlyWrapped).1 = .ok (twoOrders lastNumbers) ∧
      (countedOrders.route insertNumbered ⟨"shop", ∅⟩
        (countedOrders.route insertTwoOrders ⟨"shop", ∅⟩ nearlyWrapped).2).1 = .ok (twoOrders []) := by
  have hread : insertTwoOrders.statement = ordersReading insertTwoOrders.sql := (if_pos rfl).symm
  have hread' : insertNumbered.statement = ordersReading insertNumbered.sql := (if_neg (by decide)).symm
  have hkeys : lastNumbers = consecutiveKeys (nearlyWrapped.keys.next "numbers") 2 := rfl
  have hroute : (countedOrders.route insertTwoOrders ⟨"shop", ∅⟩ nearlyWrapped).1 =
      .ok (twoOrders lastNumbers) := by decide
  have hs : countedOrders.Reached ⟨"shop", ∅⟩ ordersReading nearlyWrapped := .initial rfl
  have hpasses : ∀ v ∈ countedOrders.validators, v.PassesInsertions := by
    intro v hv
    rw [List.mem_singleton.1 hv]
    exact Validator.dml_passesInsertions orders
  obtain ⟨t, ht, hk⟩ : ∃ t, countedOrders.rule.table? "t_order" = some t ∧
      t.keyStrategy = some ⟨"order_id", "numbers"⟩ := ⟨_, rfl, rfl⟩
  have hsecond := (generated_keys_route_as_written countedOrders hpasses insertTwoOrders
    insertNumbered.sql rfl rfl ht hk (by decide) (by decide) hkeys hs (.step insertTwoOrders hread hs)
    hread hread').1.2
  rw [hroute] at hsecond
  exact ⟨hread, hread', hkeys, hroute, hsecond⟩

end ShardedSql
