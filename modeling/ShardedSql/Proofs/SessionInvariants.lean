import ShardedSql.Proofs.GroupResults
import ShardedSql.Proofs.Processes

/-! A property of the session that connections, callbacks and reports leave alone is left alone by
everything that is built from them. -/

namespace ShardedSql

variable {ω α β C : Type} {P : Session ω → Prop}

namespace Executor

section Executor

theorem andThen_keeps {head rest : StateM (Session ω) (Except ExecutionError (List β))}
    (hhead : Keeps P head) (hrest : Keeps P rest) : Keeps P (andThen head rest) := by
  apply hhead.bind
  intro result
  cases result with
  | error e => exact .pure _
  | ok outputs =>
    apply hrest.bind
    intro more
    cases more <;> exact .pure _

variable {callback : Callback ω α β} (hcallback : ∀ group own, Keeps P (callback group own))

include hcallback in
theorem call_keeps (group : List α) (own : Bool) : Keeps P (call callback group own) :=
  (hcallback group own).bind fun _ => .pure _

include hcallback in
theorem serially_keeps (groups : List (List α)) : Keeps P (serially callback groups) := by
  induction groups with
  | nil => exact .pure _
  | cons group groups ih => exact andThen_keeps (call_keeps hcallback group true) ih

include hcallback in
theorem runAt_keeps (groups : List (List α)) (places : List Nat) :
    Keeps P (runAt callback groups places) := by
  induction places with
  | nil => exact .pure _
  | cons place places ih =>
    apply (call_keeps hcallback _ false).bind
    intro result
    exact ih.bind fun rest => .pure _

variable (hrecord : ∀ e, Keeps P (Session.record e))
include hrecord

theorem collect_keeps (processId : String)
    (outcomes : List (Nat × Except ExecutionError (List β))) (places : List Nat) :
    Keeps P (collect processId outcomes places) := by
  induction places with
  | nil => exact .pure _
  | cons place places ih =>
    rw [collect]
    split
    · exact (hrecord _).bind fun _ => ih
    · exact .pure _
    · apply ih.bind
      intro rest
      cases rest <;> exact .pure _

include hcallback

theorem run_keeps (mode : Mode) (processId : String) {first : Option (Callback ω α β)}
    (hfirst : ∀ group own, Keeps P (first.getD callback group own)) (groups : List (List α)) :
    Keeps P (run mode processId first callback groups) := by
  cases groups with
  | nil => exact .pure _
  | cons group groups =>
    cases mode with
    | serial => exact andThen_keeps (call_keeps hfirst group true) (serially_keeps hcallback groups)
    | parallel schedule =>
      apply (runAt_keeps hcallback groups _).bind
      intro early
      apply (call_keeps hfirst group true).bind
      intro result
      apply (runAt_keeps hcallback groups _).bind
      intro late
      cases result with
      | error e => exact .pure _
      | ok outputs =>
        apply (collect_keeps hrecord processId _ _).bind
        intro rest
        cases rest <;> exact .pure _

theorem execute_keeps (mode : Mode) (prepared : Prepared α) {first : Option (Callback ω α β)}
    (hfirst : ∀ group own, Keeps P (first.getD callback group own)) :
    Keeps P (execute mode prepared first callback).run := by
  apply (run_keeps hcallback hrecord mode prepared.report.processId hfirst prepared.groups).bind
  intro result
  cases result with
  | error e => exact (hrecord _).bind fun _ => .pure _
  | ok outputs => exact .pure _

end Executor

end Executor

namespace Preparation

variable {provider : Provider ω C}
  (hprovider : ∀ dataSource count mode, Keeps P (provider dataSource count mode).run)
include hprovider

theorem onSource_keeps (budget : Nat) (dataSource : String) (units : List ExecutionUnit) :
    Keeps P (onSource provider budget dataSource units).run := by
  apply (hprovider dataSource _ _).bindExcept
  intro connections
  split <;> exact .pure _

theorem prepare_keeps (budget : Nat) (decorators : List (Decorator C)) (route : Route)
    (units : List ExecutionUnit) (report : Report) :
    Keeps P (prepare provider budget decorators route units report).run := by
  apply Keeps.bindExcept
  · apply Keeps.mapM
    intro source
    exact onSource_keeps hprovider _ source.1 source.2
  · intro groups
    exact .pure _

end Preparation

namespace Driver

theorem cancellable_keeps {callback : Callback ω α β}
    (hcallback : ∀ group own, Keeps P (callback group own)) (id : String) (group : List α)
    (own : Bool) : Keeps P (cancellable id callback group own) := by
  intro s hs
  rcases cancellable_cases id callback group own s with hc | hc
  · rw [hc]
    exact hs
  · rw [hc]
    exact hcallback group own s hs

theorem runRegistered_keeps {d : Driver ω C}
    (hprovider : ∀ dataSource count mode, Keeps P (d.provider dataSource count mode).run)
    {callback : Callback ω (BoundUnit C) β} (hcallback : ∀ group own, Keeps P (callback group own))
    (hrecord : ∀ e, Keeps P (Session.record e)) (context : ExecutionContext) (report : Report) :
    Keeps P (d.runRegistered context report callback).run := by
  have hcancellable := cancellable_keeps hcallback report.processId
  apply (Preparation.prepare_keeps hprovider _ _ _ _ report).bindExcept
  intro prepared
  exact Executor.execute_keeps hcancellable hrecord d.mode prepared hcancellable

end Driver

end ShardedSql
