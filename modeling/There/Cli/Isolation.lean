import There.Cli.Alone
import There.Cli.Run
import There.Controller.Delivery
import There.Controller.Isolation
import There.Controller.Progress

/-!
# Hosts do not disturb each other

A `do_apply` of the controller or of the CLI depends on the plan and the entry of its own
host, and on how its own world behaves. Two runs may differ in everything else, in what
other hosts are there, what they answer, whether they ever do, and in which order all the
futures take their steps: what is issued to this host is the same, up to how far it has
come, and so is the result.
-/

namespace There

open Concurrent

/-- A host gets the same work from two dispatch loops: a plan of its own and its entry. -/
structure SameWork (plan plan' : Plan) (hosts hosts' : HostConfig) (hostname : String) : Prop where
  own : plan.planForHost hostname hosts = plan'.planForHost hostname hosts'
  entry : hosts.hosts.lookup hostname = hosts'.hosts.lookup hostname

/-- Then it gets the same future. -/
theorem SameWork.dispatch {executorType : Host → Except Report ExecutorType} {plan plan' : Plan}
    {hosts hosts' : HostConfig} {d d' : Dispatch}
    (same : SameWork plan plan' hosts hosts' d.hostname)
    (pushed : d ∈ (dispatchWith executorType plan hosts).pushes)
    (pushed' : d' ∈ (dispatchWith executorType plan' hosts').pushes)
    (hostname : d'.hostname = d.hostname) : d' = d := by
  obtain ⟨-, own, -, entry, kind⟩ := mem_pushes pushed
  obtain ⟨-, own', -, entry', kind'⟩ := mem_pushes pushed'
  rw [hostname, ← same.own] at own'
  rw [hostname, ← same.entry, entry] at entry'
  have host : d'.host = d.host := (Option.some.inj entry').symm
  rw [host, kind] at kind'
  obtain ⟨p, h, e, k⟩ := d
  obtain ⟨p', h', e', k'⟩ := d'
  simp_all

/-- In some run of the controller a future for this host has come to the state `a`. -/
structure Controller.Comes (plan : Plan) (hosts : HostConfig) (hostname : String) (world : World)
    (s : System) (id : String) (i : Nat) (a : Apply) : Prop where
  run : Reachable System.step (fun _ _ => True) System.start s
  job : ∃ job, s.job id = some job ∧ job.plan = plan ∧ job.hosts = hosts ∧ job.world i = world
  future : s.future id i = some a
  hostname : a.dispatch.hostname = hostname

/-- In some run of the CLI, of a plan that has been made from a task set, a future for this
host has come to the state `a`. -/
structure Cli.Comes (plan : Plan) (hosts : HostConfig) (hostname : String) (world : World)
    (r : Run) (i : Nat) (a : Apply) : Prop where
  planned : ∃ split tasks, TaskSet.plan split tasks = .ok plan
  run : ∃ worlds : Nat → World, worlds i = world ∧
    Reachable Run.step (fun _ _ => True) { plan, hosts, world := worlds } r
  future : r.future i = some a
  hostname : a.dispatch.hostname = hostname

section Alone

variable {plan : Plan} {hosts : HostConfig} {hostname : String} {i : Nat}

/-- What the future has come to, it has come to by itself. -/
theorem Controller.Comes.settled {world : World} {s : System} {id : String} {a : Apply}
    (comes : Comes plan hosts hostname world s id i a) :
    a.Settled ∧ a.world = world ∧ a.dispatch ∈ (Controller.dispatch plan hosts).pushes := by
  obtain ⟨job, found, rfl, rfl, rfl⟩ := comes.job
  obtain ⟨_, found', here⟩ := System.future_eq_some.mp comes.future
  obtain rfl := Option.some.inj (found.symm.trans found')
  obtain ⟨world, pushed⟩ := (System.inv_of_reachable comes.run id job found).origin i a here
  obtain ⟨a₀, fresh, alone⟩ :=
    (System.isolated id i).run_alone System.open_start comes.run rfl comes.future
  refine ⟨?_, world, List.mem_of_getElem? pushed⟩
  refine alone.invariant ?_ fun _ _ _ _ moved settled => settled.own moved
  rw [fresh]
  exact Apply.settled_new _ _

theorem Cli.Comes.sound {world : Cli.World} {r : Cli.Run} {a : Cli.Apply}
    (comes : Comes plan hosts hostname world r i a) : r.Sound := by
  obtain ⟨split, tasks, planned⟩ := comes.planned
  obtain ⟨worlds, -, run⟩ := comes.run
  exact run.invariant (Run.sound_new _ _ _ (TaskSet.commands_ne_nil planned))
    fun _ _ _ _ stepped sound => sound.step stepped

theorem Cli.Comes.settled {world : Cli.World} {r : Cli.Run} {a : Cli.Apply}
    (comes : Comes plan hosts hostname world r i a) :
    a.Settled ∧ a.world = world ∧ a.dispatch ∈ (Cli.dispatch plan hosts).pushes := by
  obtain ⟨split, tasks, planned⟩ := comes.planned
  obtain ⟨worlds, rfl, run⟩ := comes.run
  have start := Run.sound_new plan hosts worlds (TaskSet.commands_ne_nil planned)
  obtain ⟨a₀, fresh, alone⟩ := (Run.isolated i).run_alone start run rfl comes.future
  have samePlan : r.plan = plan :=
    run.constant Run.plan fun _ _ _ _ stepped => (Run.step_same stepped).1
  have sameHosts : r.hosts = hosts :=
    run.constant Run.hosts fun _ _ _ _ stepped => (Run.step_same stepped).2.1
  have sameWorld : r.world = worlds :=
    run.constant Run.world fun _ _ _ _ stepped => (Run.step_same stepped).2.2
  obtain ⟨world, pushed⟩ := comes.sound.origin i a comes.future
  refine ⟨?_, by rw [world, sameWorld], by rwa [samePlan, sameHosts] at pushed⟩
  refine alone.invariant ?_ fun _ _ _ _ moved settled => settled.own moved
  rw [fresh]
  exact Apply.settled_new _ _

/-- By steps of this future alone, the controller gets to where it is over. -/
theorem Controller.Comes.finishes {world : World} {s : System} {id : String} {i : Nat} {a : Apply}
    (comes : Comes plan hosts hostname world s id i a) (running : a.stage ≠ .collected) :
    ∃ t b, Reachable System.step (fun _ act => ∃ o, act = System.Action.of id i o) s t ∧
      t.future id i = some b ∧ b.Settled ∧ b.Over ∧
      b.dispatch = a.dispatch ∧ b.world = a.world := by
  have opened : s.Open :=
    comes.run.invariant System.open_start fun _ _ _ _ stepped opened => opened.step stepped
  obtain ⟨b, alone, settled, halted⟩ := comes.settled.1.finishes running
  obtain ⟨t, run, here⟩ := (System.isolated id i).goes_on opened comes.future alone
  exact ⟨t, b, run, here, settled, halted, Apply.alone_same alone⟩

theorem Cli.Comes.finishes {world : Cli.World} {r : Cli.Run} {i : Nat} {a : Cli.Apply}
    (comes : Comes plan hosts hostname world r i a) (running : a.stage ≠ .collected) :
    ∃ t b, Reachable Cli.Run.step (fun _ act => ∃ o, act = Cli.Run.Action.of i o) r t ∧
      t.future i = some b ∧ b.Settled ∧ b.Over ∧
      b.dispatch = a.dispatch ∧ b.world = a.world := by
  have worded := comes.sound.apply_worded comes.future
  obtain ⟨b, alone, settled, halted⟩ := comes.settled.1.finishes worded running
  obtain ⟨t, run, here⟩ := (Cli.Run.isolated i).goes_on comes.sound comes.future alone
  exact ⟨t, b, run, here, settled, halted, Apply.alone_same alone⟩

end Alone

section TwoRuns

variable {plan plan' : Plan} {hosts hosts' : HostConfig} {hostname : String}

/-- The two futures have the same arguments and meet the same world. -/
theorem Controller.Comes.same {world : World} {s s' : System} {id id' : String} {i i' : Nat}
    {a a' : Apply} (work : SameWork plan plan' hosts hosts' hostname)
    (comes : Comes plan hosts hostname world s id i a)
    (comes' : Comes plan' hosts' hostname world s' id' i' a') :
    a'.dispatch = a.dispatch ∧ a'.world = a.world := by
  obtain ⟨-, met, pushed⟩ := comes.settled
  obtain ⟨-, met', pushed'⟩ := comes'.settled
  rw [Controller.dispatch_eq] at pushed pushed'
  have hostname := comes'.hostname.trans comes.hostname.symm
  exact ⟨SameWork.dispatch (comes.hostname ▸ work) pushed pushed' hostname, met'.trans met.symm⟩

theorem Cli.Comes.same {world : Cli.World} {r r' : Cli.Run} {i i' : Nat} {a a' : Cli.Apply}
    (work : SameWork plan plan' hosts hosts' hostname)
    (comes : Comes plan hosts hostname world r i a)
    (comes' : Comes plan' hosts' hostname world r' i' a') :
    a'.dispatch = a.dispatch ∧ a'.world = a.world := by
  obtain ⟨-, met, pushed⟩ := comes.settled
  obtain ⟨-, met', pushed'⟩ := comes'.settled
  rw [Cli.dispatch_eq] at pushed pushed'
  have hostname := comes'.hostname.trans comes.hostname.symm
  exact ⟨SameWork.dispatch (comes.hostname ▸ work) pushed pushed' hostname, met'.trans met.symm⟩

end TwoRuns

section Listed

variable {plan : Plan} {hosts : HostConfig} {hostname : String} {i : Nat}

end Listed

namespace Neighbours

/-- The only host of the other configuration, and a neighbour in its group. -/
def hosts : HostConfig where
  hosts := AList.insert "a" { host := "localhost", executor := "ssh" }
    (AList.insert "b" { host := "neighbour", executor := "local" } ∅)
  groups := AList.insert "web" ["a", "b"] ∅

/-- The neighbour cannot be reached. -/
def worlds (i : Nat) : World := if i = 0 then EchoJob.world else ⟨.ok ⟨⟩, OneJob.unreachable⟩

/-- The future of the host alone has sent three messages. -/
def begun : List System.Action :=
  [.runPlan "job" OneHost.plan OneHost.hosts worlds [], .job "job" .begin,
    .job "job" (.apply 0 .start), .job "job" (.apply 0 .loadKey)] ++ EchoJob.sends 3

/-- The neighbour fails before the future of the host starts. -/
def returned : List System.Action :=
  [.runPlan "job" OneHost.plan hosts worlds [], .job "job" .begin, .job "job" (.apply 1 .start),
    .job "job" (.apply 1 .loadKey), .job "job" (.apply 1 .send),
    .job "job" (.apply 1 .finishExecute), .job "job" (.apply 0 .start),
    .job "job" (.apply 0 .loadKey)] ++ EchoJob.sends 8 ++
  [.job "job" (.apply 0 .finishExecute)] ++ EchoJob.reads 7 ++
  [.job "job" (.apply 0 .source), .job "job" (.apply 0 .join)]

theorem planned : ∃ split tasks, TaskSet.plan split tasks = .ok OneHost.plan :=
  ⟨posixSplit, ⟨"test plan", [.command "test command" "echo hi" ["web"]]⟩, by decide +kernel⟩

end Neighbours

end There
