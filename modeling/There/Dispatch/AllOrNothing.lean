import There.Cli.Alone
import There.Cli.Run
import There.Controller.Alone
import There.Controller.Job
import There.Dispatch.Agreement
import There.Dispatch.Stepwise

/-!
# A dispatch that fails has done nothing

Both dispatchers return an error for the dispatch loop only, since a drain loop has no way
to fail. Whether the loop fails is decided by the members that have something to do, in
whatever order the groups are visited. When it fails, the futures that it has pushed before
have not been polled: they have issued nothing to their hosts, and the readers of their
logs, which the first poll starts, have not been started.
-/

namespace There

open Concurrent

/-- The future has been polled, and has started the reader of its log. -/
def Stage.polled : Stage → Bool
  | pushed => false
  | _ => true

/-- Nothing has been issued to the host of a future, and no reader was started for it. -/
structure Untouched (issued : List Event → Prop) (stage : Stage) : Prop where
  silent : ∀ es, issued es → es = []
  unread : stage.polled = false

theorem untouched_pushed {events : List Event} {sent : Nat} :
    Untouched (Issued events sent .pushed) .pushed where
  silent := by
    rintro es ⟨issued, -, -, early, -, rfl⟩
    rw [early rfl]
    rfl
  unread := rfl

/-- The loop ends with an error. -/
def Dispatching.Fails (loop : Dispatching PUnit) : Prop :=
  ∃ e, Effect.outcome (loop []) = .error e

theorem Dispatching.fails_iff {loop : Dispatching PUnit} : loop.Fails ↔ ¬ loop.Succeeds := by
  rw [Fails, Succeeds]
  cases Effect.outcome (loop []) <;> simp

/-- Some group lists a host that has something to do and that is refused. -/
def Refuses (plan : Plan) (hosts : HostConfig) (refused : String → Prop) : Prop :=
  ∃ group ∈ hosts.groups.entries, ∃ hostname ∈ group.2,
    (plan.planForHost hostname hosts).blueprint ≠ [] ∧ refused hostname

section Failing

variable {executorType : Host → Except Report ExecutorType} {plan : Plan}
variable {hosts hosts' : HostConfig} {refused : String → Prop}

/-- A dispatch fails for a member with something to do that it has no executor for. -/
theorem fails_dispatchWith
    (none : ∀ h, refused h ↔ ¬ ∃ host ∈ hosts.hosts.lookup h, (executorType host).isOk) :
    (dispatchWith executorType plan hosts).Fails ↔ Refuses plan hosts refused := by
  rw [Dispatching.fails_iff, succeeds_dispatchWith]
  push Not
  constructor
  · rintro ⟨h, member, refuses⟩
    obtain ⟨group, listed, member⟩ := List.mem_flatMap.mp member
    exact ⟨group, listed, h, member, fun empty => refuses (.inl empty),
      (none h).mpr fun admitted => refuses (.inr admitted)⟩
  · rintro ⟨group, listed, h, member, busy, refuses⟩
    exact ⟨h, List.mem_flatMap.mpr ⟨group, listed, member⟩,
      not_or.mpr ⟨busy, (none h).mp refuses⟩⟩

theorem fails_congr (same : hosts.SameFile hosts') :
    (dispatchWith executorType plan hosts).Fails ↔
      (dispatchWith executorType plan hosts').Fails := by
  rw [Dispatching.fails_iff, Dispatching.fails_iff, succeeds_congr same]

end Failing

namespace Cli

/-- The host is missing from the host map, or its executor is none that is known. -/
def Unknown (hosts : HostConfig) (hostname : String) : Prop :=
  hostname ∉ hosts.hosts ∨ ∃ host, hosts.hosts.lookup hostname = some host ∧
    host.executor ≠ "simple" ∧ host.executor ≠ "local" ∧ host.executor ≠ "ssh"

theorem isOk_executorType {host : Host} : (executorType host).isOk ↔
    host.executor = "simple" ∨ host.executor = "local" ∨ host.executor = "ssh" := by
  rw [executorType]
  split <;> simp_all

theorem unknown_iff {hosts : HostConfig} {h : String} : Unknown hosts h ↔
    ¬ ∃ host ∈ hosts.hosts.lookup h, (executorType host).isOk := by
  rw [Unknown, ← AList.lookup_eq_none]
  simp only [isOk_executorType]
  cases hosts.hosts.lookup h <;> simp

theorem dispatch_fails_iff {plan : Plan} {hosts : HostConfig} :
    (Cli.dispatch plan hosts).Fails ↔ Refuses plan hosts (Unknown hosts) := by
  rw [dispatch_eq]
  exact fails_dispatchWith fun h => unknown_iff

/-- `subcommand_apply`, from the dispatch loop on. -/
def dispatcher (plan : Plan) (hosts : HostConfig) (world : Nat → World) :
    Dispatcher Run Apply Run.Action where
  executorType := executorType
  plan
  hosts
  push i d := { dispatch := d, world := world i }
  fails e := { plan, hosts, world, stage := .returned (.error e) }
  drains futures := { plan, hosts, world, stage := .draining, applies := futures }
  step := Run.step

/-- What the run has returned. -/
def RunStage.result : RunStage → Option (Except Report Unit)
  | returned result => some result
  | _ => none

variable {plan : Plan} {hosts : HostConfig} {world : Nat → World}

theorem loop_dispatcher : (dispatcher plan hosts world).loop = Cli.dispatch plan hosts :=
  (dispatch_eq plan hosts).symm

/-- What follows the loop is a run of the CLI as it is modelled with the loop for one step. -/
theorem dispatcher_refines {s : Dispatcher.State Run Apply} {r : Run}
    (run : Reachable (dispatcher plan hosts world).next (fun _ _ => True)
      (dispatcher plan hosts world).start s) (left : s.rest = some r) :
    Reachable Run.step (fun _ _ => True) { plan, hosts, world } r := by
  refine Dispatcher.refines Run.Action.begin (fun e failed => ?_) (fun success => ?_) run left
  · rw [loop_dispatcher] at failed
    simp [dispatcher, Run.step, failed]
  · rw [loop_dispatcher] at success ⊢
    have ok : Effect.outcome (Cli.dispatch plan hosts []) = .ok ⟨⟩ := success
    simp [dispatcher, Run.step, ok, Run.pushed]

theorem dispatcher_allOrNothing (plan : Plan) (hosts : HostConfig) (world : Nat → World) :
    (dispatcher plan hosts world).AllOrNothing (fun r => r.stage.result) Run.applies
      fun a => Untouched a.Issued a.stage := by
  refine Dispatcher.allOrNothing (fun i x => untouched_pushed) ?_ ?_
  · intro e r run
    refine run.invariant (I := fun r => r.stage.result = some (.error e) ∧ r.applies = [])
      ⟨rfl, rfl⟩ ?_
    rintro r act r' - stepped ⟨failed, none⟩
    cases Run.step_moves stepped <;> simp_all [RunStage.result]
  · intro futures e r run failed
    have onward : r.stage ≠ .planned ∧ r.stage.result ≠ some (.error e) := by
      refine run.invariant (I := fun r => r.stage ≠ .planned ∧ r.stage.result ≠ some (.error e))
        ⟨by simp [dispatcher], by simp [dispatcher, RunStage.result]⟩ ?_
      rintro r act r' - stepped ⟨past, kept⟩
      cases Run.step_moves stepped with
      | fails planned | begins planned => exact absurd planned past
      | future => exact ⟨past, kept⟩
      | panics => simp [RunStage.result]
      | concludes => simp [RunStage.result, Reporting.returns, drain_returns]
    exact onward.2 failed

end Cli

/-- What `apply_plan` has returned, until it is recorded. -/
def JobStage.result : JobStage → Option (Except Report Unit)
  | concluded result => some result
  | _ => none

namespace Controller

theorem dispatch_fails_iff {plan : Plan} {hosts : HostConfig} :
    (Controller.dispatch plan hosts).Fails ↔ Refuses plan hosts (· ∉ hosts.hosts) := by
  rw [dispatch_eq]
  refine fails_dispatchWith fun h => ?_
  rw [← AList.lookup_eq_none]
  cases hosts.hosts.lookup h <;> simp [executorType]

/-- `apply_plan`, from the dispatch loop on. -/
def dispatcher (plan : Plan) (hosts : HostConfig) (world : Nat → World) :
    Dispatcher Job Apply Job.Action where
  executorType := executorType
  plan
  hosts
  push i d := { dispatch := d, world := world i }
  fails e := { plan, hosts, world, stage := .concluded (.error e) }
  drains futures := { plan, hosts, world, stage := .draining, applies := futures }
  step := Job.step

variable {plan : Plan} {hosts : HostConfig} {world : Nat → World}

theorem loop_dispatcher : (dispatcher plan hosts world).loop = Controller.dispatch plan hosts :=
  (dispatch_eq plan hosts).symm

theorem dispatcher_refines {s : Dispatcher.State Job Apply} {job : Job}
    (run : Reachable (dispatcher plan hosts world).next (fun _ _ => True)
      (dispatcher plan hosts world).start s) (left : s.rest = some job) :
    Reachable Job.step (fun _ _ => True) { plan, hosts, world } job := by
  refine Dispatcher.refines Job.Action.begin (fun e failed => ?_) (fun success => ?_) run left
  · rw [loop_dispatcher] at failed
    simp [dispatcher, Job.step, failed]
  · rw [loop_dispatcher] at success ⊢
    have ok : Effect.outcome (Controller.dispatch plan hosts []) = .ok ⟨⟩ := success
    simp [dispatcher, Job.step, ok, Job.pushed]

theorem dispatcher_allOrNothing (plan : Plan) (hosts : HostConfig) (world : Nat → World) :
    (dispatcher plan hosts world).AllOrNothing (fun job => job.stage.result) Job.applies
      fun a => Untouched a.Issued a.stage := by
  refine Dispatcher.allOrNothing (fun i x => untouched_pushed) ?_ ?_
  · intro e job run
    refine run.invariant (I := fun job => job.stage.result = some (.error e) ∧ job.applies = [])
      ⟨rfl, rfl⟩ ?_
    rintro job act job' - stepped ⟨failed, none⟩
    cases Job.step_moves stepped <;> simp_all [JobStage.result]
  · intro futures e job run failed
    have onward : job.stage ≠ .spawned ∧ job.stage.result ≠ some (.error e) := by
      refine run.invariant
        (I := fun job => job.stage ≠ .spawned ∧ job.stage.result ≠ some (.error e))
        ⟨by simp [dispatcher], by simp [dispatcher, JobStage.result]⟩ ?_
      rintro job act job' - stepped ⟨past, kept⟩
      cases Job.step_moves stepped with
      | fails spawned | begins spawned => exact absurd spawned past
      | apply | collect | print => exact ⟨past, kept⟩
      | concludes => simp [JobStage.result]
    exact onward.2 failed

end Controller

/-- Each dispatcher fails exactly for a host that it finds no executor for, in whatever
order it visits the groups, and a dispatcher that fails has done nothing. -/
theorem dispatch_allOrNothing (plan : Plan) (hosts : HostConfig) :
    ((Cli.dispatch plan hosts).Fails ↔ Refuses plan hosts (Cli.Unknown hosts)) ∧
      ((Controller.dispatch plan hosts).Fails ↔ Refuses plan hosts (· ∉ hosts.hosts)) ∧
      (∀ hosts', hosts.SameFile hosts' →
        ((Cli.dispatch plan hosts).Fails ↔ (Cli.dispatch plan hosts').Fails) ∧
          ((Controller.dispatch plan hosts).Fails ↔ (Controller.dispatch plan hosts').Fails)) ∧
      (∀ world, (Cli.dispatcher plan hosts world).AllOrNothing (fun r => r.stage.result)
        Cli.Run.applies fun a => Untouched a.Issued a.stage) ∧
      ∀ world, (Controller.dispatcher plan hosts world).AllOrNothing (fun job => job.stage.result)
        Job.applies fun a => Untouched a.Issued a.stage := by
  refine ⟨Cli.dispatch_fails_iff, Controller.dispatch_fails_iff, fun hosts' same => ?_,
    Cli.dispatcher_allOrNothing plan hosts, Controller.dispatcher_allOrNothing plan hosts⟩
  simp only [Cli.dispatch_eq, Controller.dispatch_eq]
  exact ⟨fails_congr same, fails_congr same⟩

namespace Refused

/-- Every host is up and answers. -/
def world (_ : Nat) : Cli.World := ⟨.ok ⟨⟩, ExitOne.server, ExitOne.machine⟩

def dispatcher : Dispatcher Cli.Run Cli.Apply Cli.Run.Action :=
  Cli.dispatcher MixedExecutors.plan (MixedExecutors.hosts "ssh" "docker") world

end Refused

/-- One of two hosts has an executor that only the controller puts up with. The CLI has
prepared the other host before it finds out, and has done nothing to it. -/
theorem dispatch_allOrNothing_docker :
    (Cli.dispatch MixedExecutors.plan (MixedExecutors.reordered "ssh" "docker")).Fails ∧
      ¬ (Controller.dispatch MixedExecutors.plan (MixedExecutors.hosts "ssh" "docker")).Fails ∧
      ∃ s, Reachable Refused.dispatcher.next (fun _ _ => True) Refused.dispatcher.start s ∧
        s.futures.length = 1 ∧ ∀ a ∈ s.futures, Untouched a.Issued a.stage := by
  obtain ⟨cli, controller, same, all, -⟩ :=
    dispatch_allOrNothing MixedExecutors.plan (MixedExecutors.hosts "ssh" "docker")
  refine ⟨(same _ (MixedExecutors.sameFile "ssh" "docker")).1.mp (cli.mpr ?_), ?_, ?_⟩
  · exact ⟨⟨"db", ["b"]⟩, by decide, "b", by decide, by decide,
      .inr ⟨_, rfl, by decide, by decide, by decide⟩⟩
  · have listed : ∀ group ∈ (MixedExecutors.hosts "ssh" "docker").groups.entries,
        ∀ hostname ∈ group.2, hostname ∈ (MixedExecutors.hosts "ssh" "docker").hosts := by
      decide
    rw [controller]
    rintro ⟨group, here, hostname, member, -, missing⟩
    exact missing (listed group here hostname member)
  · have visits : (Reachable.run Refused.dispatcher.next Refused.dispatcher.start
        [.visit, .visit]).any fun s => s.futures.length = 1 ∧ s.rest.any fun r =>
          r.stage.result = some (.error (unknownExecutor "docker")) := by
      decide +kernel
    obtain ⟨s, ran, visited⟩ := (Option.any_eq_true _ _).mp visits
    obtain ⟨one, visited⟩ := of_decide_eq_true visited
    obtain ⟨r, left, failed⟩ := (Option.any_eq_true _ _).mp visited
    have run := Reachable.start.run_of_forall (fun _ _ _ => trivial) ran
    exact ⟨s, run, one,
      ((all Refused.world).nothing s r _ run left (of_decide_eq_true failed)).2⟩

end There
