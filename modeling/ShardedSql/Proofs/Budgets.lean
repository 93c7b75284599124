import ShardedSql.Proofs.Parallel
import ShardedSql.Proofs.Preparing
import ShardedSql.Proofs.SessionInvariants

/-! A driver runs each unit once, on a connection of its data source. What the whole call answers is
known from the units, whatever the budget and the mode, and a call leaves the registry of processes as
it was. -/

namespace ShardedSql

variable {ω C β : Type}

open Executor

/-- In this mode every group is run once. -/
def Mode.Covers : Mode → Prop
  | .serial => True
  | .parallel schedule => ∀ count, (schedule count).Covers count

/-- The process is not cancelled. -/
def Spares {γ : Type} (id : String) (m : StateM (Session ω) γ) : Prop :=
  Keeps (fun s => s.processes.isCancelled id = false) m

/-- The other processes stay as they are. -/
def KeepsOthers {γ : Type} (id : String) (m : StateM (Session ω) γ) : Prop :=
  ∀ others, Keeps (fun s => s.processes.running.erase id = others) m

theorem lasting_running (id : String) :
    Lasting (fun s : Session ω => s.processes.isCancelled id = false) where
  record := fun _ _ h => h
  complete := fun other _ h => Processes.isCancelled_complete h other

/-- Where every group is done, a call in any mode gives their outputs in order. -/
theorem Executor.execute_outputs {α : Type} {P : Session ω → Prop} {callback : Callback ω α β}
    {f : List α → List β} {mode : Mode} (hmode : mode.Covers) (hP : Lasting P)
    (hcallback : ComputesOn P callback fun group => .done (f group)) (prepared : Prepared α)
    {s : Session ω} (hs : P s) :
    (execute mode prepared none callback s).1 = .ok (prepared.groups.flatMap f) := by
  have hresults : results (fun group => .done (f group)) (fun group => .done (f group))
      prepared.groups = (prepared.groups.map f).map .ok := by
    cases prepared.groups <;> simp [results, Outcome.result]
  have hfirst : ComputesOn P ((none : Option (Callback ω α β)).getD callback)
      fun group => .done (f group) := hcallback
  rw [List.flatMap_def]
  cases mode with
  | serial =>
    rw [execute_answer]
    exact (run_serial_answers hfirst hcallback hs _ _).outputs _ hresults
  | parallel schedule =>
    exact (execute_parallel_answers hP hfirst hcallback hmode prepared hs).outputs _ hresults

namespace Driver

variable {d : Driver ω C} {callback : Callback ω (BoundUnit C) β} {context : ExecutionContext}

theorem run_apply (d : Driver ω C) (context : ExecutionContext) (database : String)
    (callback : Callback ω (BoundUnit C) β) (s : Session ω) :
    d.run context database callback s =
      let added := Session.add database context.query.sql s
      let done := d.runRegistered context ⟨added.1, database⟩ callback added.2
      (done.1, (Session.complete added.1 done.2).2) := rfl

section Registry

/-- A call registers one process and completes it. -/
theorem run_processes {s : Session ω} (hfresh : s.processes.Fresh)
    (hprovider : ∀ dataSource count mode,
      KeepsOthers (Processes.idOf s.processes.next) (d.provider dataSource count mode).run)
    (hcallback : ∀ group own, KeepsOthers (Processes.idOf s.processes.next) (callback group own))
    (context : ExecutionContext) (database : String) :
    (d.run context database callback s).2.processes.running = s.processes.running := by
  rw [run_apply]
  apply runRegistered_keeps (fun dataSource count mode => hprovider dataSource count mode _)
    (fun group own => hcallback group own _) (fun _ _ h => h)
  exact hfresh.erase_add database context.query.sql

theorem update_session (d : Driver ω C) (context : ExecutionContext) (database : String)
    (callback : Callback ω (BoundUnit C) Nat) (s : Session ω) :
    (d.update context database callback s).2 = (d.run context database callback s).2 := by
  rw [update, run_bind]
  rcases d.run context database callback s with ⟨_ | counts, s'⟩ <;> rfl

theorem execute_session (d : Driver ω C) (context : ExecutionContext) (database : String)
    (callback : Callback ω (BoundUnit C) Bool) (s : Session ω) :
    (d.execute context database callback s).2 = (d.run context database callback s).2 := by
  rw [Driver.execute, run_bind]
  rcases d.run context database callback s with ⟨_ | found, s'⟩ <;> rfl

end Registry

/-- The driver has no decorators, enough connections and a mode that runs every group, and nothing
cancels the process while it asks for connections. -/
structure Serves (d : Driver ω C) (id : String) : Prop where
  decorators : d.decorators = []
  mode : d.mode.Covers
  supplies : Preparation.Supplies d.provider
  spares : ∀ dataSource count mode, Spares id (d.provider dataSource count mode).run

/-- The callback gives an output for each unit, on whatever connection and thread, and does not cancel
the process. -/
structure Yields (callback : Callback ω (BoundUnit C) β) (id : String) (out : ExecutionUnit → β) :
    Prop where
  outcome : ∀ group own s, (callback group own s).1 = .done (group.map fun b => out b.unit)
  spares : ∀ group own, Spares id (callback group own)

section Answers

variable {out : ExecutionUnit → β}

/-- Every unit gives its output, as long as the process is not cancelled. -/
theorem cancellable_computes {id : String} (hyields : Yields callback id out) :
    ComputesOn (fun s : Session ω => s.processes.isCancelled id = false) (cancellable id callback)
      fun group => .done (group.map fun b => out b.unit) where
  outcome := by
    intro group own s hs
    rw [cancellable_of_running hs, hyields.outcome]
  keeps := cancellable_keeps hyields.spares id

/-- The whole call gives the outputs of the units, data source by data source. -/
theorem run_answer {s : Session ω} (hserves : d.Serves (Processes.idOf s.processes.next))
    (hyields : Yields callback (Processes.idOf s.processes.next) out) (context : ExecutionContext)
    (database : String) :
    (d.run context database callback s).1 =
      .ok ((groupOn ExecutionUnit.dataSource context.units).flatMap fun source => source.2.map out) := by
  set id := Processes.idOf s.processes.next with hid
  set registered := (Session.add database context.query.sql s).2 with hregistered
  have hrunning : registered.processes.isCancelled id = false := Processes.isCancelled_add _ _ _
  obtain ⟨asked, s', hasked, hle, -, hprepare⟩ := Preparation.prepare_eq hserves.supplies d.budget
    context.route context.units ⟨id, database⟩ registered
  have hrunning' : s'.processes.isCancelled id = false := by
    have hkeeps := Preparation.prepare_keeps hserves.spares d.budget [] context.route context.units
      ⟨id, database⟩ registered hrunning
    change (Preparation.prepare d.provider d.budget [] context.route context.units ⟨id, database⟩
      registered).2.processes.isCancelled id = false at hkeeps
    rwa [hprepare] at hkeeps
  have hexecute := execute_outputs hserves.mode (lasting_running id) (cancellable_computes hyields)
    ⟨asked.flatMap fun a => Preparation.bound (max d.budget 1) a.1.2 a.2, ⟨id, database⟩⟩ hrunning'
  have houtputs : (asked.flatMap fun a => Preparation.bound (max d.budget 1) a.1.2 a.2).flatMap
      (fun group => group.map fun b => out b.unit) =
      (groupOn ExecutionUnit.dataSource context.units).flatMap fun source => source.2.map out := by
    calc (asked.flatMap fun a => Preparation.bound (max d.budget 1) a.1.2 a.2).flatMap
          (fun group => group.map fun b => out b.unit)
        = ((asked.flatMap fun a => Preparation.bound (max d.budget 1) a.1.2 a.2).flatten.map
            (·.unit)).map out := by
          rw [List.map_map, List.map_flatten, List.flatMap_def]
          rfl
      _ = (asked.flatMap (·.1.2)).map out := by rw [Preparation.flatten_asked hle]
      _ = (groupOn ExecutionUnit.dataSource context.units).flatMap fun source =>
            source.2.map out := by rw [← hasked, List.flatMap_map, List.map_flatMap]
  rw [run_apply]
  change (d.runRegistered context ⟨id, database⟩ callback registered).1 = _
  rw [runRegistered, run_bind, hserves.decorators, hprepare]
  exact hexecute.trans (congrArg _ houtputs)

theorem foldl_saturating (counts : List Nat) (sum : Nat) :
    counts.foldl (fun sum n => min (sum + n) maxCount) (min sum maxCount) =
      min (sum + counts.sum) maxCount := by
  induction counts generalizing sum with
  | nil => rfl
  | cons n counts ih =>
    have hmin : min (min sum maxCount + n) maxCount = min (sum + n) maxCount := by omega
    rw [List.foldl_cons, hmin, ih, List.sum_cons, Nat.add_assoc]

/-- The affected rows of the units, added up as far as a count goes or, where every unit affects the
same rows, those of the first one. -/
def affected (d : Driver ω C) (context : ExecutionContext) (out : ExecutionUnit → Nat) : Nat :=
  if d.accumulates context then min (context.units.map out).sum maxCount
  else (context.units.map out).headD 0

theorem update_answer {callback : Callback ω (BoundUnit C) Nat} {out : ExecutionUnit → Nat}
    {s : Session ω} (hserves : d.Serves (Processes.idOf s.processes.next))
    (hyields : Yields callback (Processes.idOf s.processes.next) out) (context : ExecutionContext)
    (database : String) :
    (d.update context database callback s).1 = .ok (d.affected context out) := by
  have hrun := run_answer hserves hyields context database
  set counts := (groupOn ExecutionUnit.dataSource context.units).flatMap
    fun source => source.2.map out with hcounts
  have hsum : counts.sum = (context.units.map out).sum := by
    have hperm := (groupOn_perm ExecutionUnit.dataSource context.units).map out
    rw [← hperm.sum_eq, hcounts, List.map_flatten, List.map_map, List.flatMap_def]
    rfl
  have hhead : counts.headD 0 = (context.units.map out).headD 0 := by
    rw [hcounts]
    cases context.units with
    | nil => rfl
    | cons unit units =>
      obtain ⟨rest, hrest⟩ := groupOn_cons ExecutionUnit.dataSource unit units
      rw [hrest]
      rfl
  have hfold := foldl_saturating counts 0
  rw [Nat.zero_min, Nat.zero_add] at hfold
  rw [update, run_bind]
  rcases hdone : d.run context database callback s with ⟨answer, s'⟩
  rw [hdone] at hrun
  subst hrun
  change Except.ok (if d.accumulates context then
    counts.foldl (fun sum n => min (sum + n) maxCount) 0 else counts.headD 0) = _
  rw [affected, hfold, hsum, hhead]

end Answers

end Driver

/-- Each call of the driver lists the same processes afterwards as before. -/
def Driver.KeepsListing (d : Driver ω C) (context : ExecutionContext) (database : String)
    (s : Session ω) : Prop :=
  (∀ {β : Type} (callback : Callback ω (BoundUnit C) β),
    (∀ group own, KeepsOthers (Processes.idOf s.processes.next) (callback group own)) →
    (d.query context database callback s).2.processes.list = s.processes.list) ∧
  (∀ callback : Callback ω (BoundUnit C) Nat,
    (∀ group own, KeepsOthers (Processes.idOf s.processes.next) (callback group own)) →
    (d.update context database callback s).2.processes.list = s.processes.list) ∧
  ∀ callback : Callback ω (BoundUnit C) Bool,
    (∀ group own, KeepsOthers (Processes.idOf s.processes.next) (callback group own)) →
    (d.execute context database callback s).2.processes.list = s.processes.list

/-- Preparation deals out the units to groups on the connections that it asks each data source for
once. What a query or an update answers is known from the units alone, where nothing fails and the
process is not cancelled. Whatever fails, the registry lists the same processes after the call, unless
its id is in use already, as it cannot be before the numbers have run out. -/
theorem driver_runs_units_once (d : Driver ω C) (context : ExecutionContext) (database : String) :
    (d.decorators = [] → Preparation.Supplies d.provider → ∀ report s, ∃ supplied groups s',
      (groupOn ExecutionUnit.dataSource context.units).mapM
        (fun source => Preparation.ask d.provider (max d.budget 1) source.1 source.2) s =
          (.ok supplied, s') ∧
      Preparation.prepare d.provider d.budget d.decorators context.route context.units report s =
        (.ok ⟨groups, report⟩, s') ∧
      Preparation.Deals context.units
        ((distinct (context.units.map (·.dataSource))).zip supplied) groups) ∧
    (∀ s, d.Serves (Processes.idOf s.processes.next) →
      (∀ {β : Type} (callback : Callback ω (BoundUnit C) β) (out : ExecutionUnit → β),
        Driver.Yields callback (Processes.idOf s.processes.next) out →
        (d.query context database callback s).1 = .ok
          ((groupOn ExecutionUnit.dataSource context.units).flatMap fun source => source.2.map out)) ∧
      ∀ (callback : Callback ω (BoundUnit C) Nat) (out : ExecutionUnit → Nat),
        Driver.Yields callback (Processes.idOf s.processes.next) out →
        (d.update context database callback s).1 = .ok (d.affected context out)) ∧
    (∀ s, s.processes.Fresh →
      (∀ dataSource count mode,
        KeepsOthers (Processes.idOf s.processes.next) (d.provider dataSource count mode).run) →
      d.KeepsListing context database s) ∧
    ∀ count processes, Processes.Reached count processes → count < UInt64.size → processes.Fresh := by
  refine ⟨?_, ?_, ?_, ?_⟩
  · intro hdecorators hsupplies report s
    obtain ⟨asked, s', hasked, hle, hask, hprepare⟩ :=
      Preparation.prepare_eq hsupplies d.budget context.route context.units report s
    rw [hdecorators]
    refine ⟨_, _, s', hask, hprepare, ?_⟩
    rw [← Preparation.sources_eq hasked, List.zip_map']
    exact Preparation.deals_of_asked hasked hle
  · intro s hserves
    refine ⟨?_, ?_⟩
    · intro β callback out hyields
      exact Driver.run_answer hserves hyields context database
    · intro callback out hyields
      exact Driver.update_answer hserves hyields context database
  · intro s hfresh hprovider
    refine ⟨?_, ?_, ?_⟩
    · intro β callback hcallback
      exact congrArg NameMap.entries
        (Driver.run_processes hfresh hprovider hcallback context database)
    · intro callback hcallback
      rw [Driver.update_session]
      exact congrArg NameMap.entries
        (Driver.run_processes hfresh hprovider hcallback context database)
    · intro callback hcallback
      rw [Driver.execute_session]
      exact congrArg NameMap.entries
        (Driver.run_processes hfresh hprovider hcallback context database)
  · intro count processes hreached hcount
    exact hreached.fresh hcount

/-- Connections that are numbered from zero. -/
def numberedConnections : Provider Unit String := fun dataSource count _ =>
  pure ((List.range count).map fun i => dataSource ++ "#" ++ toString i)

theorem numberedConnections_supplies : Preparation.Supplies numberedConnections :=
  fun _ count _ s => ⟨_, s, rfl, by simp⟩

theorem driver_runs_units_once_shop :
    let unit : String → String → ExecutionUnit := fun dataSource sql => ⟨dataSource, sql, [], []⟩
    let context : ExecutionContext := ⟨⟨"SELECT 1", .of .select [], [], .none⟩,
      [unit "ds_0" "a", unit "ds_1" "b", unit "ds_0" "c", unit "ds_0" "d"], .empty⟩
    let callback : Callback Unit (BoundUnit String) String := fun group _ s =>
      (.done (group.map fun b => b.unit.sql), s)
    let narrow : Driver Unit String := ⟨numberedConnections, 1, [], .serial, none⟩
    let wide : Driver Unit String := ⟨numberedConnections, 2, [], .parallel .inOrder, none⟩
    let s : Session Unit := ⟨.empty, [], ()⟩
    s.processes.Fresh ∧
    narrow.Serves (Processes.idOf s.processes.next) ∧ wide.Serves (Processes.idOf s.processes.next) ∧
    Driver.Yields callback (Processes.idOf s.processes.next) (·.sql) ∧
    (narrow.query context "shop" callback s).1 = .ok ["a", "c", "d", "b"] ∧
    (wide.query context "shop" callback s).1 = .ok ["a", "c", "d", "b"] ∧
    (wide.query context "shop" callback s).2.processes.list = [] ∧
    ∃ groups s', Preparation.prepare wide.provider wide.budget wide.decorators context.route
        context.units ⟨"process-1", "shop"⟩ s = (.ok ⟨groups, ⟨"process-1", "shop"⟩⟩, s') ∧
      (groups.flatten.map (·.unit)).Perm context.units := by
  intro unit context callback narrow wide s
  have hspares : ∀ dataSource count mode, Spares (Processes.idOf s.processes.next)
      (numberedConnections dataSource count mode).run := fun _ _ _ _ h => h
  have hnarrow : narrow.Serves (Processes.idOf s.processes.next) :=
    ⟨rfl, trivial, numberedConnections_supplies, hspares⟩
  have hwide : wide.Serves (Processes.idOf s.processes.next) :=
    ⟨rfl, Schedule.covers_inOrder, numberedConnections_supplies, hspares⟩
  have hyields : Driver.Yields callback (Processes.idOf s.processes.next) (·.sql) :=
    ⟨fun _ _ _ => rfl, fun _ _ _ h => h⟩
  obtain ⟨-, hnarrowAnswers, -, -⟩ := driver_runs_units_once narrow context "shop"
  obtain ⟨hdeals, hwideAnswers, hlisting, hreached⟩ := driver_runs_units_once wide context "shop"
  obtain ⟨supplied, groups, s', -, hprepare, hdealt⟩ :=
    hdeals rfl numberedConnections_supplies ⟨"process-1", "shop"⟩ s
  have hfresh : s.processes.Fresh := hreached 0 _ .empty (by decide)
  refine ⟨hfresh, hnarrow, hwide, hyields, ?_, ?_, ?_, groups, s', hprepare, hdealt.once⟩
  · exact ((hnarrowAnswers s hnarrow).1 callback _ hyields).trans rfl
  · exact ((hwideAnswers s hwide).1 callback _ hyields).trans rfl
  · exact (hlisting s hfresh fun _ _ _ _ _ h => h).1 callback fun _ _ _ _ h => h

end ShardedSql
