import There.Controller.Server

/-!
# Futures that wait for ever

A `do_apply` holds a sender of its log channel while it waits for its reader, so the
reader never finds the channel disconnected: only the end of the stream stops it. A
run of the executor that does not end its stream therefore leaves the future, the
drain loop and the job waiting for ever.

Under the condition that every executor started ends its stream, which depends on
the hosts alone, no reachable state holds such a future.
-/

namespace There

open Concurrent

/-- If the executor is started, it ends its stream: the key is refused, or every task
is executed without an error. -/
def World.Ends (w : World) (plan : Plan) : Prop :=
  w.key.isOk → w.server.Refuses ∨
    w.server.Connected ∧ ∀ k, ∀ task ∈ plan.blueprint[k]?, w.server.Done k task

/-- Every executor that `run_plan` will start ends its stream. If the dispatch loop fails,
none is started. -/
def System.EndsStreams (_ : System) : System.Action → Prop
  | .runPlan _ plan hosts world _ => (Controller.dispatch plan hosts).Succeeds →
      ∀ i, ∀ d ∈ (Controller.dispatch plan hosts).pushes[i]?, (world i).Ends d.plan
  | _ => True

/-- Every executor of the job that was started has returned, and its log channels
are drained. -/
structure Job.Settled (job : Job) : Prop where
  returned : ∀ a ∈ job.applies, a.stage ≠ .executing
  drained : ∀ a ∈ job.applies, a.log.rx.buffer = []

/-- In a settled job every future that waits for its reader can go on: the reader has
stopped, and joining it is the future's next step. -/
def System.NoneStuck (s : System) : Prop :=
  ∀ id job, s.job id = some job → job.Settled →
    ∀ a ∈ job.applies, ∀ result, a.stage = .joining result →
      a.reader = .finished ∧ (a.step .join).isSome

namespace Apply

/-- The stream of an executor that is started ends. -/
theorem end_mem_script {a : Apply} (ends : a.world.Ends a.dispatch.plan)
    (loaded : a.world.key.isOk) : .«end» ∈ a.script := by
  obtain ⟨⟨n, m, applied⟩, -⟩ := (SshExecutor.execute_emits a.dispatch.host a.dispatch.hostname
    a.dispatch.plan a.world.server).fresh
  have stream : EndsStream (Effect.finalState (a.run none)).events :=
    applied.ended_iff.mpr (ends loaded)
  obtain ⟨logs, hm, -⟩ := stream
  rw [script, hm]
  exact List.mem_append_right logs (List.mem_singleton_self _)

theorem Inv.joins {a : Apply} (inv : a.Inv) (ends : a.world.Ends a.dispatch.plan)
    {result : Except Report Nat} (joining : a.stage = .joining result)
    (empty : a.log.rx.buffer = []) : a.reader = .finished ∧ (a.step .join).isSome := by
  have loaded : a.world.key.isOk := inv.keyed (.inl (by rw [joining]; rfl))
  have stopped : a.reader = .finished := by
    by_contra reading
    exact inv.not_stuck (end_mem_script ends loaded) ⟨⟨result, joining⟩, empty, reading⟩
  refine ⟨stopped, ?_⟩
  simp [step, joining, stopped]

end Apply

namespace Job

/-- There are futures only if the dispatch loop has not failed. -/
theorem Evolves.succeeds {job job' : Job} {stored : Option JobState}
    {write : JobState → JobState} (h : job.Evolves stored job' write)
    (before : job.applies ≠ [] → (Controller.dispatch job.plan job.hosts).Succeeds) :
    job'.applies ≠ [] → (Controller.dispatch job'.plan job'.hosts).Succeeds := by
  have set : ∀ {i : Nat} {a : Apply}, job.applies.set i a ≠ [] → job.applies ≠ [] :=
    fun nonempty empty => nonempty (by rw [empty, List.set_nil])
  cases h with
  | moves h =>
      cases h with
      | begins _ succeeds => exact fun _ => succeeds
      | apply _ _ | collect _ _ _ => exact fun nonempty => before (set nonempty)
      | _ => exact before
  | append _ _ => exact fun nonempty => before (set nonempty)
  | _ => exact before

end Job

namespace System

variable {s : System} {id : String} {job : Job}

theorem succeeds_of_reachable {admits : System → Action → Prop}
    (run : Reachable step admits start s) (found : s.job id = some job)
    (started : job.applies ≠ []) : (Controller.dispatch job.plan job.hosts).Succeeds :=
  job_invariant
    (J := fun job _ => job.applies ≠ [] → (Controller.dispatch job.plan job.hosts).Succeeds)
    (fun _ _ _ _ _ _ _ nonempty => absurd rfl nonempty)
    (fun _ _ _ _ evolved before => evolved.succeeds before) (fun _ _ _ _ _ _ before => before)
    run id job found started

theorem ends_of_reachable (run : Reachable step EndsStreams start s)
    (found : s.job id = some job) : (Controller.dispatch job.plan job.hosts).Succeeds →
      ∀ i, ∀ d ∈ (Controller.dispatch job.plan job.hosts).pushes[i]?,
        (job.world i).Ends d.plan := by
  refine job_invariant (J := fun job _ => (Controller.dispatch job.plan job.hosts).Succeeds →
    ∀ i, ∀ d ∈ (Controller.dispatch job.plan job.hosts).pushes[i]?, (job.world i).Ends d.plan)
    ?_ ?_ ?_ run id job found
  · intro _ _ plan hosts world _ admitted
    exact admitted
  · intro job _ job' _ evolved
    obtain ⟨plan, hosts, world⟩ := evolved.same
    rw [plan, hosts, world]
    exact fun h => h
  · exact fun _ _ _ _ _ _ h => h

end System

/-- In every run in which every executor started ends its stream, no future is ever
left waiting for its reader. -/
theorem noneStuck_of_endsStreams {s : System}
    (run : Reachable System.step System.EndsStreams System.start s) : s.NoneStuck := by
  intro id job found settled a member result joining
  have inv := System.inv_of_reachable run id job found
  have succeeds := System.succeeds_of_reachable run found (List.ne_nil_of_mem member)
  obtain ⟨i, here⟩ := List.getElem?_of_mem member
  obtain ⟨world, pushed⟩ := inv.origin i a here
  refine (inv.applies a member).joins ?_ joining (settled.drained a member)
  rw [world]
  exact System.ends_of_reachable run found succeeds i a.dispatch pushed

/-- A settled job in which some future waits for a reader that has not stopped. -/
def Job.hangs (job : Job) : Bool :=
  (job.applies.all fun a => a.stage ≠ .executing ∧ a.log.rx.buffer = []) &&
    job.applies.any fun a => (match a.stage with
      | .joining _ => true
      | _ => false) && a.reader ≠ .finished

theorem not_noneStuck_of_hangs {s : System} {id : String} {job : Job}
    (found : s.job id = some job) (hangs : job.hangs) : ¬ s.NoneStuck := by
  intro free
  obtain ⟨settled, waits⟩ := Bool.and_eq_true_iff.mp hangs
  simp only [List.all_eq_true, decide_eq_true_eq] at settled
  obtain ⟨a, member, waits⟩ := List.any_eq_true.mp waits
  obtain ⟨joining, reading⟩ := Bool.and_eq_true_iff.mp waits
  split at joining
  · rename_i result stage
    have := free id job found ⟨fun b hb => (settled b hb).1, fun b hb => (settled b hb).2⟩
      a member result stage
    simp [this.1] at reading
  · cases joining

namespace OneJob

/-- The job is requested, its only future is started, sends `n` messages and returns
from `execute`; the reader appends `m` batches and polls once more. -/
def actions (server : SshHost) (n m : Nat) : List System.Action :=
  [.runPlan "job" OneHost.plan OneHost.hosts (fun _ => ⟨.ok ⟨⟩, server⟩) [], .job "job" .begin,
    .job "job" (.apply 0 .start), .job "job" (.apply 0 .loadKey)] ++
  List.replicate n (.job "job" (.apply 0 .send)) ++ [.job "job" (.apply 0 .finishExecute)] ++
  (List.replicate m [.job "job" (.apply 0 .source), .append "job" 0 []]).flatten ++
  [.job "job" (.apply 0 .source)]

/-- The server cannot be reached. -/
def unreachable : SshHost where
  connect := .error (.msg "Connection refused (os error 111)")
  authenticate := .ok true
  task _ := { check := fun _ => ⟨.ok ⟨⟩, .ok ⟨⟩, []⟩, command := ⟨.ok ⟨⟩, .ok ⟨⟩, []⟩ }

/-- The server does not know the key of the controller. -/
def stranger : SshHost := { unreachable with connect := .ok ⟨⟩, authenticate := .ok false }

/-- Where the actions lead. -/
def after (server : SshHost) (n m : Nat) : Option System :=
  Reachable.run System.step System.start (actions server n m)

end OneJob

/-- The future that cannot reach its host waits for ever. -/
theorem not_noneStuck :
    ∃ s, Reachable System.step (fun _ _ => True) System.start s ∧ ¬ s.NoneStuck := by
  have hangs : (OneJob.after OneJob.unreachable 1 1).any fun s =>
      (s.job "job").any Job.hangs := by decide +kernel
  obtain ⟨s, ran, hangs⟩ := (Option.any_eq_true _ _).mp hangs
  obtain ⟨job, found, hangs⟩ := (Option.any_eq_true _ _).mp hangs
  exact ⟨s, Reachable.start.run_of_forall (fun _ _ _ => trivial) ran,
    not_noneStuck_of_hangs found hangs⟩

/-- The future whose key is refused gets to where it can be joined. -/
theorem noneStuck_stranger : ∃ s, OneJob.after OneJob.stranger 3 2 = some s ∧ s.NoneStuck := by
  have runs : (OneJob.after OneJob.stranger 3 2).isSome := by decide +kernel
  obtain ⟨s, ran⟩ := Option.isSome_iff_exists.mp runs
  refine ⟨s, ran, noneStuck_of_endsStreams (Reachable.start.run_of_forall ?_ ran)⟩
  intro act member t
  have ends : ∀ p : Plan, World.Ends ⟨.ok ⟨⟩, OneJob.stranger⟩ p := fun _ _ => .inl ⟨rfl, rfl⟩
  cases act with
  | runPlan id plan hosts world victims =>
      obtain ⟨-, rfl, rfl, rfl, -⟩ : id = "job" ∧ plan = OneHost.plan ∧ hosts = OneHost.hosts ∧
          world = (fun _ => ⟨.ok ⟨⟩, OneJob.stranger⟩) ∧ victims = [] := by
        simpa [OneJob.actions] using member
      exact fun _ _ _ _ => ends _
  | _ => trivial

end There
