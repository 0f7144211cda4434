import There.Cli.Alone
import There.Cli.Run
import There.Concurrent.Futures
import There.Controller.Alone
import There.Controller.Delivery
import There.Controller.Progress
import There.Controller.Server

/-!
# What is reported about each host

The drain loop takes the result of every future once, in the order in which they become
ready, and prints one line for it. The line is made from the result and from the plan of
the loop, which is the whole plan; the plan that the host was given is not at hand.

A `do_apply` whose executor has failed wraps the typed error into an untyped one before it
returns, so the line of such a host never comes from the branch for failed hosts.
-/

namespace There

open Concurrent

/-- The line that the drain loop prints about a result. -/
def reportLine (plan : Plan) : ApplyResult → ReportLine
  | .ok (host, tasksCompleted) => .completed plan.name host tasksCompleted plan.blueprint.length
  | .error (.planApplyFailed host tasksCompleted source) =>
      .failed plan.name host tasksCompleted plan.blueprint.length source
  | .error (.msg text) => .anonymous (.msg text)

/-- The lines that have been printed. -/
def Reporting.lines (p : Reporting PUnit) : List ReportLine := Effect.finalState (p [])

theorem report_eq (plan : Plan) (result : ApplyResult) :
    report plan result = modify (· ++ [reportLine plan result]) := by
  rcases result with (_ | _) | _ <;> rfl

theorem drain_lines (plan : Plan) (results : List ApplyResult) :
    (drain plan results).lines = results.map (reportLine plan) := by
  have prints : ∀ lines, Effect.finalState (drain plan results lines) =
      lines ++ results.map (reportLine plan) := by
    induction results with
    | nil => exact fun lines => (List.append_nil lines).symm
    | cons result results ih =>
        intro lines
        rw [drain, List.forM_cons, report_eq, List.map_cons, List.append_cons]
        exact ih (lines ++ [reportLine plan result])
  exact prints []

/-- The executor gets through the plan without an error. -/
structure SshHost.Completes (server : SshHost) (plan : Plan) : Prop where
  connected : server.Connected
  tasks : ∀ k, ∀ task ∈ plan.blueprint[k]?, server.Done k task

section Executor

variable {host : Host} {hostname : String} {plan : Plan} {server : SshHost}

theorem SshExecutor.run_completes :
    Effect.outcome (run host hostname plan server) = .ok ⟨⟩ ↔ server.Completes plan := by
  obtain ⟨⟨n, m, applied⟩, -⟩ := (execute_emits host hostname plan server).fresh
  have complete := applied.progress.complete_iff
  simp only [Nat.zero_add] at complete
  exact applied.ok.trans ⟨fun h => ⟨h.1, complete.mp h.2⟩,
    fun h => ⟨h.connected, complete.mpr h.tasks⟩⟩

/-- An executor that does not fail has completed its whole blueprint. -/
theorem SshExecutor.run_tasksCompleted
    (ok : Effect.outcome (run host hostname plan server) = .ok ⟨⟩) :
    (Effect.finalState (run host hostname plan server)).tasksCompleted = plan.blueprint.length := by
  obtain ⟨⟨n, m, applied⟩, counts⟩ := (execute_emits host hostname plan server).fresh
  rw [run, counts, applied.progress.counted]
  exact (applied.ok.mp ok).2

end Executor

/-- What has to be reported about a host over SSH, in the report of an apply of `plan`: a
host that has completed its tasks has completed all that were given to it, and a host whose
executor has failed is reported as failed, after as many tasks as it has completed. -/
def Reports (plan : Plan) (d : Dispatch) (server : SshHost) (line : ReportLine) : Prop :=
  let run := SshExecutor.run d.host d.hostname d.plan server
  let tasksCompleted := (Effect.finalState run).tasksCompleted
  let total := d.plan.blueprint.length
  match Effect.outcome run with
  | .ok _ => tasksCompleted = total ∧ line = .completed plan.name d.hostname tasksCompleted total
  | .error _ => ∃ source, line = .failed plan.name d.hostname tasksCompleted total source

/-- The result of an executor, wrapped as `do_apply` wraps it. -/
def Wraps (d : Dispatch) (server : SshHost) (result : ApplyResult) : Prop :=
  let run := SshExecutor.run d.host d.hostname d.plan server
  match Effect.outcome run with
  | .ok _ => result = .ok (d.hostname, (Effect.finalState run).tasksCompleted)
  | .error _ => ∃ text, result = .error (.msg text)

/-- The line of a host is right if its executor has not failed, and the plan that it was
given is as long as the whole plan. -/
theorem reports_iff {plan : Plan} {d : Dispatch} {server : SshHost} {result : ApplyResult}
    (wraps : Wraps d server result) : Reports plan d server (reportLine plan result) ↔
      server.Completes d.plan ∧ d.plan.blueprint.length = plan.blueprint.length := by
  rw [← @SshExecutor.run_completes d.host d.hostname]
  simp only [Reports, Wraps] at *
  cases outcome : Effect.outcome (SshExecutor.run d.host d.hostname d.plan server) with
  | ok u =>
      simp only [outcome] at wraps
      rw [wraps, reportLine, SshExecutor.run_tasksCompleted outcome]
      simp [eq_comm]
  | error e =>
      simp only [outcome] at wraps
      obtain ⟨text, rfl⟩ := wraps
      simp [reportLine]

/-- The drain loop has handled the results that it has taken: it has taken the result of
each collected future once, has printed one line for each, and the lines are right. -/
structure Faithful {A : Type} (plan : Plan) (stage : A → Stage) (gives : A → ApplyResult → Prop)
    (right : A → ReportLine → Prop) (applies : List A) (results : List ApplyResult) : Prop where
  all : (drain plan results).lines.length = results.length
  once : TakenOnce (fun a => stage a = .collected) (fun a p => gives a p.1 ∧ right a p.2) applies
    (results.zip (drain plan results).lines)

/-- What a drain loop knows of its futures at any time. -/
structure Collects {A : Type} (stage : A → Stage) (settled : A → Prop)
    (gives : A → ApplyResult → Prop) (applies : List A) (results : List ApplyResult) : Prop where
  settled : ∀ a ∈ applies, settled a
  taken : TakenOnce (fun a => stage a = .collected) gives applies results

section Draining

variable {A : Type} {plan : Plan} {stage : A → Stage} {settled : A → Prop}
variable {gives : A → ApplyResult → Prop} {right : A → ReportLine → Prop}
variable {applies : List A} {results : List ApplyResult} {i : Nat} {a a' : A}

/-- The lines are right if they are right for the futures that have been collected. -/
theorem faithful_iff (collects : Collects stage settled gives applies results)
    (only : ∀ a r r', gives a r → gives a r' → r = r') :
    Faithful plan stage gives right applies results ↔ ∀ a ∈ applies, stage a = .collected →
      ∀ r, gives a r → right a (reportLine plan r) := by
  have pairs : results.zip (drain plan results).lines =
      results.map fun r => (r, reportLine plan r) := by
    rw [drain_lines]
    simpa using @List.zip_map' _ _ _ id (reportLine plan) results
  constructor
  · rintro ⟨-, once⟩ a here collected r gave
    rw [pairs] at once
    obtain ⟨p, listed, gave', correct⟩ := once.exists_result here collected
    obtain ⟨r', -, rfl⟩ := List.mem_map.mp listed
    rwa [only a r r' gave gave']
  · intro correct
    refine ⟨by rw [drain_lines, List.length_map], ?_⟩
    rw [pairs]
    exact collects.taken.map fun a here collected r gave =>
      ⟨gave, correct a here collected r gave⟩

/-- The report is right exactly if the executors of the futures over SSH that have been
collected have not failed, and were given the whole plan. -/
theorem faithful_iff_completes {dispatch : A → Dispatch} {server : A → SshHost} {ssh : A → Prop}
    (collects : Collects stage settled gives applies results)
    (only : ∀ a r r', gives a r → gives a r' → r = r')
    (wraps : ∀ a r, ssh a → gives a r → Wraps (dispatch a) (server a) r) :
    Faithful plan stage gives (fun a line => ssh a → Reports plan (dispatch a) (server a) line)
        applies results ↔
      ∀ a ∈ applies, stage a = .collected → ssh a → (server a).Completes (dispatch a).plan ∧
        (dispatch a).plan.blueprint.length = plan.blueprint.length := by
  rw [faithful_iff collects only]
  refine forall_congr' fun a => forall_congr' fun here => forall_congr' fun collected => ?_
  constructor
  · intro right ssh
    obtain ⟨r, -, gave⟩ := collects.taken.exists_result here collected
    exact (reports_iff (wraps a r ssh gave)).mp (right r gave ssh)
  · intro whole r gave ssh
    exact (reports_iff (wraps a r ssh gave)).mpr (whole ssh)

namespace Collects

/-- The futures have been pushed. -/
theorem pushed (fresh : ∀ a ∈ applies, settled a ∧ stage a = .pushed) :
    Collects stage settled gives applies [] where
  settled := fun a here => (fresh a here).1
  taken := .nil fun a here => by simp [(fresh a here).2]

theorem settled_set (collects : Collects stage settled gives applies results) (keeps : settled a') :
    ∀ b ∈ applies.set i a', settled b := by
  intro b here
  rcases List.mem_or_eq_of_mem_set here with old | rfl
  · exact collects.settled b old
  · exact keeps

/-- A future takes a step. -/
theorem set (collects : Collects stage settled gives applies results)
    (here : applies[i]? = some a) (keeps : settled a')
    (same : stage a' = .collected ↔ stage a = .collected) (final : ∀ r, gives a r → gives a' r) :
    Collects stage settled gives (applies.set i a') results where
  settled := collects.settled_set keeps
  taken := collects.taken.set here same final

/-- The result of a future is taken. -/
theorem take {r : ApplyResult} (collects : Collects stage settled gives applies results)
    (here : applies[i]? = some a) (keeps : settled a') (returned : stage a = .returned r)
    (after : stage a' = .collected) (final : ∀ r, gives a r → gives a' r) (gave : gives a' r) :
    Collects stage settled gives (applies.set i a') (results ++ [r]) where
  settled := collects.settled_set keeps
  taken := collects.taken.take here (by simp [returned]) after final gave

end Collects

end Draining

namespace Cli

namespace Apply

variable {a a' : Apply}

theorem act_stage {act : Action} (h : a.step act = some (.ok a')) :
    a.stage ≠ .collected ∧ a'.stage ≠ .collected := by
  generalize ok : (.ok a' : Except String Apply) = x at h
  cases step_moves h with
  | sendFails executing | finishExecute executing =>
      obtain ⟨stage, ended, rfl⟩ := map_enter_eq_ok ok.symm
      obtain ⟨result, rfl⟩ | ⟨result, rfl⟩ := executed_eq_ok ended <;> simp [executing, enter]
  | keyMissing preparing | join preparing =>
      cases ok
      simp [preparing, enter]
  | startLocal here | startSsh here | keyLoaded here | send here =>
      cases ok
      simp [here]

theorem source_stage {logs : Logs} (h : a.source = some (logs, a')) : a'.stage = a.stage := by
  rw [Apply.source] at h
  split at h
  · cases h
  · split at h <;> cases h <;> rfl

end Apply

namespace Run

/-- Nothing has been taken before the futures are there, and each result that has been taken
is that of its future. -/
structure Drains (r : Run) : Prop where
  planned : r.stage = .planned → r.applies = [] ∧ r.results = []
  collects : Collects Apply.stage Apply.Settled (fun a result => a.final = some result) r.applies
    r.results

variable {r r' : Run}

theorem Drains.step {act : Action} (drains : r.Drains) (h : r.step act = some r') : r'.Drains := by
  cases act with
  | begin =>
      simp only [Run.step] at h
      split at h
      · rename_i planned
        obtain ⟨none, empty⟩ := drains.planned planned
        split at h <;> cases h
        · exact ⟨by simp, drains.collects⟩
        · refine ⟨by simp, ?_⟩
          rw [empty]
          refine .pushed fun a here => ?_
          obtain ⟨i, lt, rfl⟩ := List.mem_mapIdx.mp here
          exact ⟨Apply.settled_new _ _, rfl⟩
      · cases h
  | apply i act =>
      simp only [Run.step] at h
      split at h
      · rename_i a draining here
        split at h <;> cases h
        · rename_i a' stepped
          have moved : a.own (.act act) = some a' := by simp [Apply.own, stepped, Except.toOption]
          have same := Apply.own_same moved
          have settled := drains.collects.settled a (List.mem_of_getElem? here)
          obtain ⟨before, after⟩ := Apply.act_stage stepped
          exact ⟨by simp [draining], drains.collects.set here (settled.own moved)
            (iff_of_false after before) fun _ => (Apply.final_eq same.1 same.2).trans⟩
        · exact ⟨by simp, drains.collects⟩
      · cases h
  | source i =>
      simp only [Run.step] at h
      split at h
      · rename_i a draining here
        obtain ⟨⟨logs, a'⟩, read, rfl⟩ := Option.map_eq_some_iff.mp h
        have same := Apply.source_same read
        have settled := drains.collects.settled a (List.mem_of_getElem? here)
        exact ⟨by simp [draining], drains.collects.set here (settled.source read)
          (by rw [Apply.source_stage read]) fun _ => (Apply.final_eq same.1 same.2).trans⟩
      · cases h
  | collect i =>
      simp only [Run.step] at h
      split at h
      · rename_i a draining here
        obtain ⟨⟨result, a'⟩, taken, rfl⟩ := Option.map_eq_some_iff.mp h
        have settled := drains.collects.settled a (List.mem_of_getElem? here)
        have keeps := settled.collect taken
        obtain ⟨returned, rfl⟩ := Apply.collect_eq_some taken
        exact ⟨by simp [draining], drains.collects.take here keeps returned rfl
          (fun _ => id) (settled.returned result returned)⟩
      · cases h
  | conclude =>
      simp only [Run.step] at h
      split at h <;> cases h
      exact ⟨by simp, drains.collects⟩

theorem drains_of_reachable {plan : Plan} {hosts : HostConfig} {world : Nat → World}
    (run : Reachable Run.step (fun _ _ => True) { plan, hosts, world } r) : r.Drains :=
  run.invariant ⟨fun _ => ⟨rfl, rfl⟩, .pushed (by simp)⟩ fun _ _ _ _ stepped drains =>
    drains.step stepped

end Run

/-- The SSH executor of the future is started. -/
structure Apply.OverSsh (a : Apply) : Prop where
  kind : a.dispatch.executorType = .ssh
  key : a.world.key.isOk

theorem Apply.OverSsh.wraps {a : Apply} {result : ApplyResult} (ssh : a.OverSsh)
    (gave : a.final = some result) : Wraps a.dispatch a.world.server result := by
  have loaded : a.loaded = a.world.key := by simp [loaded, ssh.kind]
  have run : a.run none = SshExecutor.run a.dispatch.host a.dispatch.hostname a.dispatch.plan
      a.world.server := by simp [Apply.run, ssh.kind, SshExecutor.run]
  simp only [final, executed, loaded, run, ssh.kind] at gave
  rw [Wraps]
  cases key : a.world.key with
  | error e =>
      have ok := ssh.key
      rw [key] at ok
      cases ok
  | ok u =>
      cases outcome : Effect.outcome (SshExecutor.run a.dispatch.host a.dispatch.hostname
          a.dispatch.plan a.world.server) with
      | ok u =>
          simp only [key, outcome, joined, Option.some.injEq] at gave
          exact gave.symm
      | error e =>
          cases e with
          | error report =>
              simp only [key, outcome, joined, Option.some.injEq] at gave
              exact ⟨_, gave.symm⟩
          | panic site => simp [key, outcome] at gave

/-- The results that the drain loop has taken are handled, those of hosts over SSH rightly. -/
def Run.Reported (r : Run) : Prop :=
  Faithful r.plan Apply.stage (fun a result => a.final = some result)
    (fun a line => a.OverSsh → Reports r.plan a.dispatch a.world.server line) r.applies r.results

theorem Run.reported_iff {plan : Plan} {hosts : HostConfig} {world : Nat → World} {r : Run}
    (run : Reachable Run.step (fun _ _ => True) { plan, hosts, world } r) :
    r.Reported ↔ ∀ a ∈ r.applies, a.stage = .collected → a.OverSsh →
      a.world.server.Completes a.dispatch.plan ∧
        a.dispatch.plan.blueprint.length = r.plan.blueprint.length := by
  have drains := drains_of_reachable run
  have only : ∀ (a : Apply) (r r' : ApplyResult), a.final = some r → a.final = some r' → r = r' :=
    fun a r r' h h' => Option.some.inj (h.symm.trans h')
  exact faithful_iff_completes drains.collects only fun a r ssh gave => ssh.wraps gave

end Cli

section Controller

variable {a a' : Apply} {job job' : Job}

theorem Apply.Moves.collected_iff (h : a.Moves a') :
    a'.stage = .collected ↔ a.stage = .collected := by
  refine ⟨fun after => ?_, h.collected⟩
  cases h <;> first | assumption | simp_all

/-- Nothing has been taken before the futures are there, and each result that has been taken
is that of its future. -/
structure Job.Drains (job : Job) : Prop where
  spawned : job.stage = .spawned → job.applies = [] ∧ job.results = []
  collects : Collects Apply.stage Apply.Settled (fun a result => a.final = result) job.applies
    job.results

theorem Job.Drains.evolves {stored : Option JobState} {write : JobState → JobState}
    (drains : job.Drains) (h : job.Evolves stored job' write) : job'.Drains := by
  have busy : ∀ {i : Nat} {b : Apply}, job.applies[i]? = some b → job.stage ≠ .spawned := by
    intro i b here spawned
    rw [(drains.spawned spawned).1] at here
    cases here
  cases h with
  | moves h =>
      cases h with
      | fails spawned failed => exact ⟨by simp, drains.collects⟩
      | begins spawned success =>
          refine ⟨by simp, ?_⟩
          rw [(drains.spawned spawned).2]
          refine .pushed fun a here => ?_
          obtain ⟨i, lt, rfl⟩ := List.mem_mapIdx.mp here
          exact ⟨Apply.settled_new _ _, rfl⟩
      | @apply i a a' here moved =>
          have settled := drains.collects.settled a (List.mem_of_getElem? here)
          refine ⟨fun spawned => absurd spawned (busy here), ?_⟩
          exact drains.collects.set here (settled.moves moved) moved.collected_iff
            fun _ => (Apply.final_eq moved.same.1 moved.same.2).trans
      | @collect i a a' result draining here taken =>
          have settled := drains.collects.settled a (List.mem_of_getElem? here)
          have keeps : a'.Settled := settled.own (b := .collect) (by simp [Apply.own, taken])
          obtain ⟨returned, rfl⟩ := Apply.collect_eq_some taken
          exact ⟨by simp [draining], drains.collects.take here keeps returned rfl (fun _ => id)
            (settled.returned result returned).symm⟩
      | concludes => exact ⟨by simp, drains.collects⟩
      | print => exact ⟨drains.spawned, drains.collects⟩
  | @append i a a' logs here appended =>
      have settled := drains.collects.settled a (List.mem_of_getElem? here)
      have keeps : a'.Settled := settled.own (b := .append) (by simp [Apply.own, appended])
      obtain ⟨dispatch, world, stage⟩ := Apply.append_same appended
      refine ⟨fun spawned => absurd spawned (busy here), ?_⟩
      exact drains.collects.set here keeps (by rw [stage])
        fun _ => (Apply.final_eq dispatch world).trans
  | record concluded => exact ⟨by simp, drains.collects⟩
  | answer | panic => exact ⟨drains.spawned, drains.collects⟩

theorem System.drains_of_reachable {s : System}
    (run : Reachable System.step (fun _ _ => True) System.start s) :
    ∀ id job, s.job id = some job → job.Drains :=
  job_invariant (J := fun job _ => job.Drains)
    (fun _ _ _ _ _ _ _ => ⟨fun _ => ⟨rfl, rfl⟩, .pushed (by simp)⟩)
    (fun _ _ _ _ evolved drains => drains.evolves evolved)
    (fun _ _ _ _ _ _ drains => drains) run

theorem Apply.wraps {result : ApplyResult} (loaded : a.world.key.isOk) (gave : a.final = result) :
    Wraps a.dispatch a.world.server result := by
  rw [final_of_isOk loaded] at gave
  simp only [executed, Apply.run] at gave
  simp only [Wraps, SshExecutor.run]
  split
  · rename_i outcome
    rw [← gave, outcome]
    rfl
  · rename_i outcome
    rw [outcome] at gave
    exact ⟨_, gave.symm⟩

/-- The results that the drain loop has taken are handled, and handled rightly unless the
executor could not be started. -/
def Job.Reported (job : Job) : Prop :=
  Faithful job.plan Apply.stage (fun a result => a.final = result)
    (fun a line => a.world.key.isOk → Reports job.plan a.dispatch a.world.server line) job.applies
    job.results

theorem Job.Drains.reported_iff (drains : job.Drains) :
    job.Reported ↔ ∀ a ∈ job.applies, a.stage = .collected → a.world.key.isOk →
      a.world.server.Completes a.dispatch.plan ∧
        a.dispatch.plan.blueprint.length = job.plan.blueprint.length := by
  exact faithful_iff_completes drains.collects (fun a r r' h h' => h.symm.trans h')
    fun a r loaded gave => Apply.wraps loaded gave

end Controller

/-- The two drain loops report every result that they take exactly as long as no host over
SSH has failed, and each was given the whole plan. -/
theorem results_reported_iff (plan : Plan) (hosts : HostConfig) (world : Nat → Cli.World)
    (id : String) :
    (∀ r : Cli.Run, Reachable Cli.Run.step (fun _ _ => True) { plan, hosts, world } r →
      (r.Reported ↔ ∀ a ∈ r.applies, a.stage = .collected → a.OverSsh →
        a.world.server.Completes a.dispatch.plan ∧
          a.dispatch.plan.blueprint.length = r.plan.blueprint.length)) ∧
      ∀ (s : System) (job : Job), Reachable System.step (fun _ _ => True) System.start s →
        s.job id = some job →
          (job.Reported ↔ ∀ a ∈ job.applies, a.stage = .collected → a.world.key.isOk →
            a.world.server.Completes a.dispatch.plan ∧
              a.dispatch.plan.blueprint.length = job.plan.blueprint.length) :=
  ⟨fun _ run => Cli.Run.reported_iff run,
    fun _ job run found => (System.drains_of_reachable run id job found).reported_iff⟩

namespace OneReport

/-- A run of the CLI whose only future sends `n` messages. -/
def cliActions (n : Nat) : List Cli.Run.Action :=
  [.begin, .apply 0 .start, .apply 0 .loadKey] ++ List.replicate n (.apply 0 .send) ++
  [.apply 0 .finishExecute] ++ List.replicate n (.source 0) ++
  [.apply 0 .join, .collect 0, .conclude]

def cliAfter (plan : Plan) (server : SshHost) (n : Nat) : Option Cli.Run :=
  Reachable.run Cli.Run.step
    { plan, hosts := OneHost.hosts, world := fun _ => ⟨.ok ⟨⟩, server, NoConnection.machine⟩ }
    (cliActions n)

/-- A job of the controller whose only future sends a number of messages and an end. -/
def actions (plan : Plan) (server : SshHost) (n : Nat) : List System.Action :=
  [.runPlan "job" plan OneHost.hosts (fun _ => ⟨.ok ⟨⟩, server⟩) [], .job "job" .begin,
    .job "job" (.apply 0 .start), .job "job" (.apply 0 .loadKey)] ++ EchoJob.sends (n + 1) ++
  [.job "job" (.apply 0 .finishExecute)] ++ EchoJob.reads n ++
  [.job "job" (.apply 0 .source), .job "job" (.apply 0 .join), .job "job" (.collect 0),
    .job "job" .conclude]

def after (plan : Plan) (server : SshHost) (n : Nat) : Option System :=
  Reachable.run System.step System.start (actions plan server n)

/-- The second of the tasks is meant for a group that nobody belongs to. -/
def half : Plan :=
  { OneHost.plan with
    blueprint := OneHost.plan.blueprint ++ [⟨"other", ["true"], [], ["db"]⟩] }

/-- The executor for a host has completed the plan, and it is the whole plan. -/
def Whole (plan : Plan) (d : Dispatch) (server : SshHost) : Prop :=
  Effect.outcome (SshExecutor.run d.host d.hostname d.plan server) = .ok ⟨⟩ ∧
    d.plan.blueprint.length = plan.blueprint.length

instance (plan : Plan) (d : Dispatch) (server : SshHost) : Decidable (Whole plan d server) :=
  inferInstanceAs (Decidable (_ ∧ _))

theorem whole_iff {plan : Plan} {d : Dispatch} {server : SshHost} : Whole plan d server ↔
    server.Completes d.plan ∧ d.plan.blueprint.length = plan.blueprint.length := by
  rw [Whole, SshExecutor.run_completes]

theorem cli_not_reported {plan : Plan} {server : SshHost} {n : Nat}
    (wrong : (cliAfter plan server n).any fun r => r.applies.any fun a => a.stage = .collected ∧
      a.dispatch.executorType = .ssh ∧ a.world.key.isOk ∧
        ¬ Whole r.plan a.dispatch a.world.server) :
    ∃ r, cliAfter plan server n = some r ∧ ¬ r.Reported := by
  obtain ⟨r, ran, wrong⟩ := (Option.any_eq_true _ _).mp wrong
  obtain ⟨a, here, wrong⟩ := List.any_eq_true.mp wrong
  obtain ⟨collected, kind, key, wrong⟩ := of_decide_eq_true wrong
  refine ⟨r, ran, fun reported => wrong (whole_iff.mpr ?_)⟩
  exact (Cli.Run.reported_iff (Reachable.start.run_of_forall (fun _ _ _ => trivial) ran)).mp
    reported a here collected ⟨kind, key⟩

theorem job_not_reported {plan : Plan} {server : SshHost} {n : Nat}
    (wrong : (after plan server n).any fun s => (s.job "job").any fun job =>
      job.applies.any fun a => a.stage = .collected ∧ a.world.key.isOk ∧
        ¬ Whole job.plan a.dispatch a.world.server) :
    ∃ s job, after plan server n = some s ∧ s.job "job" = some job ∧ ¬ job.Reported := by
  obtain ⟨s, ran, wrong⟩ := (Option.any_eq_true _ _).mp wrong
  obtain ⟨job, found, wrong⟩ := (Option.any_eq_true _ _).mp wrong
  obtain ⟨a, here, wrong⟩ := List.any_eq_true.mp wrong
  obtain ⟨collected, key, wrong⟩ := of_decide_eq_true wrong
  refine ⟨s, job, ran, found, fun reported => wrong (whole_iff.mpr ?_)⟩
  have run : Reachable System.step (fun _ _ => True) System.start s :=
    Reachable.start.run_of_forall (fun _ _ _ => trivial) ran
  exact (System.drains_of_reachable run "job" job found).reported_iff.mp reported a here
    collected key

end OneReport

/-- A host that has completed the whole plan is reported as it should be. -/
theorem results_reported_echo :
    (∃ r, OneReport.cliAfter OneHost.plan EchoJob.world.server 8 = some r ∧ r.Reported) ∧
      ∃ s job, OneReport.after OneHost.plan EchoJob.world.server 7 = some s ∧
        s.job "job" = some job ∧ job.Reported := by
  constructor
  · have runs : (OneReport.cliAfter OneHost.plan EchoJob.world.server 8).any fun r =>
        r.applies.all fun a => OneReport.Whole r.plan a.dispatch a.world.server := by
      decide +kernel
    obtain ⟨r, ran, whole⟩ := (Option.any_eq_true _ _).mp runs
    refine ⟨r, ran, ((results_reported_iff _ _ _ "job").1 r
      (Reachable.start.run_of_forall (fun _ _ _ => trivial) ran)).mpr fun a here _ _ => ?_⟩
    exact OneReport.whole_iff.mp (of_decide_eq_true (List.all_eq_true.mp whole a here))
  · have runs : (OneReport.after OneHost.plan EchoJob.world.server 7).any fun s =>
        (s.job "job").any fun job => job.applies.all fun a =>
          OneReport.Whole job.plan a.dispatch a.world.server := by
      decide +kernel
    obtain ⟨s, ran, whole⟩ := (Option.any_eq_true _ _).mp runs
    obtain ⟨job, found, whole⟩ := (Option.any_eq_true _ _).mp whole
    refine ⟨s, job, ran, found, ((results_reported_iff OneHost.plan OneHost.hosts
      (fun _ => ⟨.ok ⟨⟩, EchoJob.world.server, NoConnection.machine⟩) "job").2 s job
      (Reachable.start.run_of_forall (fun _ _ _ => trivial) ran) found).mpr fun a here _ _ => ?_⟩
    exact OneReport.whole_iff.mp (of_decide_eq_true (List.all_eq_true.mp whole a here))

/-- A host that refuses the key is not reported as failed, and a host that was given one
task of two is reported as half done when it has completed it. -/
theorem results_not_reported :
    (∃ r, OneReport.cliAfter OneHost.plan OneJob.stranger 3 = some r ∧ ¬ r.Reported) ∧
      (∃ r, OneReport.cliAfter OneReport.half EchoJob.world.server 8 = some r ∧ ¬ r.Reported) ∧
      (∃ s job, OneReport.after OneHost.plan OneJob.stranger 2 = some s ∧
        s.job "job" = some job ∧ ¬ job.Reported) ∧
      ∃ s job, OneReport.after OneReport.half EchoJob.world.server 7 = some s ∧
        s.job "job" = some job ∧ ¬ job.Reported := by
  refine ⟨OneReport.cli_not_reported ?_, OneReport.cli_not_reported ?_,
    OneReport.job_not_reported ?_, OneReport.job_not_reported ?_⟩
  · decide +kernel
  · decide +kernel
  · decide +kernel
  · decide +kernel

end There
