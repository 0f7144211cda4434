import There.Dispatch.Basic

/-!
# Draining the pushed futures

When a dispatch loop has ended without an error, both dispatchers drain the
collection of futures in the order in which they complete and print one line for
each result. The two drain loops are the same text. A result that is an error is
printed and passed over, so the loop has no way to fail.

The futures may complete in any order, and each may return anything: that is the
data of `Completions`.
-/

namespace There

/-- What one `do_apply` returns: its host name and how many tasks were completed. -/
abbrev ApplyResult : Type := Except Report (String × Nat)

/-- The status of a controller job. -/
inductive JobStatus where
  | running
  | completed
  | failed
deriving Repr, DecidableEq

/-- What `do_apply` makes of an error of its SSH executor, once its reader is joined. Where
the error has come from, which its debug form says as well, is left out. -/
def Dispatch.failure (d : Dispatch) (tasksCompleted : Nat) (err : String) : Report :=
  .msg ("failed to apply plan: " ++
    (s!"failed to apply plan to host: {d.hostname} ({tasksCompleted} tasks complete): " ++
      (s!"ssh executor failed to apply plan {d.plan.name} to host {d.hostname}: " ++
        s!"{tasksCompleted}/{d.plan.blueprint.length} tasks finished:\n\n" ++ err)))

/-- What the drain loop prints about one result. -/
inductive ReportLine where
  | completed (plan host : String) (tasksCompleted total : Nat)
  | failed (plan host : String) (tasksCompleted total : Nat) (source : Report)
  /-- The error was not built as a failed plan application. -/
  | anonymous (report : Report)
deriving Repr, DecidableEq

/-- The loop state is the list of lines printed so far. -/
abbrev Reporting (α : Type) : Type := EStateM Report (List ReportLine) α

/-- The body of the drain loop. An error is downcast to the typed error. -/
def report (plan : Plan) (result : ApplyResult) : Reporting PUnit :=
  match result with
  | .ok (host, tasksCompleted) =>
      modify (· ++ [.completed plan.name host tasksCompleted plan.blueprint.length])
  | .error (.planApplyFailed host tasksCompleted source) =>
      modify (· ++ [.failed plan.name host tasksCompleted plan.blueprint.length source])
  | .error msg => modify (· ++ [.anonymous msg])

/-- The drain loop over the results in the order of completion. -/
def drain (plan : Plan) (results : List ApplyResult) : Reporting PUnit :=
  forM results (report plan)

/-- The results of all pushed futures, in the order in which they complete. -/
structure Completions (pushes : List Dispatch) where
  order : List (Dispatch × ApplyResult)
  perm : (order.map Prod.fst).Perm pushes

/-- A dispatch loop and, unless it fails, the drain loop. A dispatch that fails
drops its futures before any of them is polled. -/
def applyWith (loop : Dispatching PUnit) (plan : Plan) (completions : Completions loop.pushes) :
    Reporting PUnit :=
  match Effect.outcome (loop []) with
  | .error e => throw e
  | .ok _ => drain plan (completions.order.map Prod.snd)

/-- `subcommand_apply` on the path without a controller. -/
def Cli.subcommandApply (plan : Plan) (hosts : HostConfig)
    (completions : Completions (Cli.dispatch plan hosts).pushes) : Reporting PUnit :=
  applyWith (Cli.dispatch plan hosts) plan completions

def Controller.applyPlan (plan : Plan) (hosts : HostConfig)
    (completions : Completions (Controller.dispatch plan hosts).pushes) : Reporting PUnit :=
  applyWith (Controller.dispatch plan hosts) plan completions

/-- The status that the task spawned by `run_plan` records. -/
def finalStatus : Except Report Unit → JobStatus
  | .ok _ => .completed
  | .error _ => .failed

/-- What a dispatcher returns. -/
def Reporting.returns (p : Reporting PUnit) : Except Report Unit := Effect.outcome (p [])

/-- The drain loop returns `Ok` whatever the results are. -/
theorem drain_returns (plan : Plan) (results : List ApplyResult) (lines : List ReportLine) :
    Effect.outcome (drain plan results lines) = .ok ⟨⟩ := by
  have keeps : Effect.WP (drain plan results) (fun r _ => r = .ok ⟨⟩) lines := by
    refine Effect.WP.forM (fun _ _ => True) trivial ?_ fun _ _ => rfl
    intro result rest t _
    simp only [report]
    split <;> simp
  exact keeps

/-- The plan of every dispatched host was applied without an error. -/
def AllApplied {pushes : List Dispatch} (completions : Completions pushes) : Prop :=
  ∀ c ∈ completions.order, c.2.isOk

instance {pushes : List Dispatch} (completions : Completions pushes) :
    Decidable (AllApplied completions) :=
  inferInstanceAs (Decidable (∀ c ∈ completions.order, c.2.isOk = true))

/-- `Ok` is returned only if every `do_apply` returned `Ok`. -/
def OkOnlyIfApplied {pushes : List Dispatch} (completions : Completions pushes)
    (returns : Except Report Unit) : Prop :=
  returns = .ok ⟨⟩ → AllApplied completions

/-- The failure of a host reaches the status of the job. -/
structure StatusFaithful (loop : Dispatching PUnit) (completions : Completions loop.pushes)
    (status : JobStatus) : Prop where
  completed : status = .completed ↔ loop.Succeeds ∧ AllApplied completions
  failed : loop.Succeeds → ¬ AllApplied completions → status = .failed

section General

variable {loop : Dispatching PUnit} {plan : Plan} {completions : Completions loop.pushes}

/-- What is returned depends on the dispatch loop alone. -/
theorem applyWith_returns :
    (applyWith loop plan completions).returns = .ok ⟨⟩ ↔ loop.Succeeds := by
  rw [applyWith, Dispatching.Succeeds]
  cases h : Effect.outcome (loop []) with
  | error e => simp [Reporting.returns]
  | ok a => exact iff_of_true (drain_returns _ _ _) rfl

theorem okOnlyIfApplied_iff :
    OkOnlyIfApplied completions (applyWith loop plan completions).returns ↔
      (loop.Succeeds → AllApplied completions) := by
  rw [OkOnlyIfApplied, applyWith_returns]

theorem finalStatus_eq_completed {r : Except Report Unit} :
    finalStatus r = .completed ↔ r = .ok ⟨⟩ := by
  cases r <;> simp [finalStatus]

theorem statusFaithful_iff :
    StatusFaithful loop completions (finalStatus (applyWith loop plan completions).returns) ↔
      (loop.Succeeds → AllApplied completions) := by
  constructor
  · intro faithful success
    have := faithful.completed.mp (finalStatus_eq_completed.mpr (applyWith_returns.mpr success))
    exact this.2
  · intro all
    refine ⟨?_, fun success fails => absurd (all success) fails⟩
    rw [finalStatus_eq_completed, applyWith_returns]
    exact ⟨fun success => ⟨success, all success⟩, And.left⟩

end General

/-- Both dispatchers report the failure of a host exactly when there is none to
report, or when the dispatch loop itself fails. -/
theorem failurePropagated_iff (plan : Plan) (hosts : HostConfig)
    (cli : Completions (Cli.dispatch plan hosts).pushes)
    (controller : Completions (Controller.dispatch plan hosts).pushes) :
    (OkOnlyIfApplied cli (Cli.subcommandApply plan hosts cli).returns ↔
        ((∀ h ∈ hosts.members, Admits Cli.executorType plan hosts h) → AllApplied cli)) ∧
      (OkOnlyIfApplied controller (Controller.applyPlan plan hosts controller).returns ∧
          StatusFaithful (Controller.dispatch plan hosts) controller
            (finalStatus (Controller.applyPlan plan hosts controller).returns) ↔
        ((∀ h ∈ hosts.members, Admits Controller.executorType plan hosts h) →
          AllApplied controller)) := by
  rw [← succeeds_dispatchWith, ← succeeds_dispatchWith, ← Cli.dispatch_eq,
    ← Controller.dispatch_eq]
  refine ⟨okOnlyIfApplied_iff, ?_⟩
  show OkOnlyIfApplied _ _ ∧ StatusFaithful _ _ _ ↔ _
  exact (and_congr okOnlyIfApplied_iff statusFaithful_iff).trans (and_self_iff)

namespace OneHost

def plan : Plan :=
  ⟨"test plan", [⟨"test command", ["echo", "hi"], [.exeExists "echo"], ["web"]⟩]⟩

def hosts : HostConfig where
  hosts := AList.insert "a" { host := "localhost", executor := "ssh" } ∅
  groups := AList.insert "web" ["a"] ∅

/-- The server of every host refuses the key. -/
def refused (pushes : List Dispatch) : Completions pushes where
  order := pushes.map fun d => (d, .error (d.failure 0 "ssh authentication failed!"))
  perm := by simp [Function.comp_def]

def cli : Completions (Cli.dispatch plan hosts).pushes := refused _

def controller : Completions (Controller.dispatch plan hosts).pushes := refused _

end OneHost

theorem failure_not_propagated :
    ¬ OkOnlyIfApplied OneHost.cli
        (Cli.subcommandApply OneHost.plan OneHost.hosts OneHost.cli).returns ∧
      ¬ OkOnlyIfApplied OneHost.controller
        (Controller.applyPlan OneHost.plan OneHost.hosts OneHost.controller).returns ∧
      ¬ StatusFaithful (Controller.dispatch OneHost.plan OneHost.hosts) OneHost.controller
        (finalStatus
          (Controller.applyPlan OneHost.plan OneHost.hosts OneHost.controller).returns) := by
  refine ⟨fun h => ?_, fun h => ?_, fun h => ?_⟩
  · exact absurd (h rfl) (by decide)
  · exact absurd (h rfl) (by decide)
  · exact absurd (h.completed.mp rfl).2 (by decide)

end There
