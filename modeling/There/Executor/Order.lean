import There.Executor.Schedule
import There.Executor.Simple
import There.Executor.Ssh

/-!
# Both executors run their plans in order

The schedules of the two executors, and the proof that each of them follows its own
for every plan, every host and every behaviour of the log receiver.
-/

namespace There

open Effect

namespace SimpleExecutor

/-- The local executor queries the machine itself. It needs a first word to start. -/
def discipline (machine : LocalHost) : Discipline where
  prelude := []
  query := .query
  issue task := .spawn (task.command.headD "") task.command.tail
  up := True
  ready k task := (machine.task k).EnsuresPass task ∧ task.command ≠ []
  prelude_silent := by simp
  query_silent := fun _ => ⟨rfl, by simp⟩
  issue_uncounted := by simp
  issue_command := by
    rintro k task ⟨-, ne⟩
    obtain ⟨cmd, args, command⟩ := List.exists_cons_of_ne_nil ne
    simp [Event.command, command]
  ready_up := fun _ _ _ => trivial

theorem ensureTask_performs (probe : Nat → Probe) (i : Nat) (ensures : List Ensure) :
    Performs (ensureTask probe i ensures) (ensures.map fun ensure => ⟨.query ensure, True⟩)
      fun failures => failures = [] →
        ∀ j, ∀ ensure ∈ ensures[j]?, Ensure.query (probe (i + j)) ensure = .ok true := by
  induction ensures generalizing i with
  | nil => exact .pure (by simp)
  | cons ensure ensures ih =>
      rw [forall_numbered_cons fun j (e : Ensure) => e.query (probe j) = .ok true]
      refine .silent_bind (Performs.sink _) fun _ _ =>
        .act_bind (Performs.emit rfl (by simp) trivial) ?_
      refine .silent_bind (Performs.ofExcept _) fun pass answer => ?_
      refine Follows.bind_silent (ih (i + 1)) fun failures rest => .pure ?_
      cases pass with
      | false => simp
      | true => exact fun none => ⟨answer, rest (by simpa using none)⟩

theorem waitTurns_performs (turns : List Turn) : Performs (waitTurns turns) [] fun _ => True := by
  have output : ∀ next, Performs (sinkOutput next) [] fun _ => True := by
    intro next
    cases next with
    | error e => exact .pure trivial
    | ok bytes =>
        intro s hs
        have left : finalState (sinkOutput (.ok bytes) s) =
            finalState (sink (.next [textOrDebug bytes]) s) := by
          simp only [sinkOutput]
          cases sink (.next [textOrDebug bytes]) s <;> rfl
        obtain ⟨counts, taken, took, same, -⟩ := Performs.sink (.next [textOrDebug bytes]) s hs
        obtain rfl : taken = [] := List.prefix_nil.mp took.first
        rw [← left] at counts same
        exact ⟨counts, [], .nil [], same, fun _ _ => ⟨rfl, trivial⟩⟩
  induction turns with
  | nil => exact .pure trivial
  | cons turn turns ih =>
      cases turn with
      | stdout next => exact .silent_bind (output next) fun _ _ => ih
      | stderr next => exact .silent_bind (output next) fun _ _ => ih
      | exhausted => exact .pure trivial

theorem executeTask_performs (machine : LocalHost) (k : Nat) (task : PlannedTask) :
    Performs (executeTask task (machine.task k))
      (task.ensures.map (fun ensure => ⟨(discipline machine).query ensure, True⟩) ++
        [⟨(discipline machine).issue task, (discipline machine).ready k task⟩, ⟨.counted, True⟩])
      fun _ => True := by
  refine Follows.bind (ensureTask_performs (machine.task k).probe 0 task.ensures) ?_
  intro failedEnsures ensured
  cases failedEnsures with
  | cons failure failures => exact .silent_bind (Performs.sink _) fun _ _ => .throw _
  | nil =>
      have pass : (machine.task k).EnsuresPass task := by
        simpa [LocalTask.EnsuresPass] using ensured rfl
      rw [List.isEmpty_nil, if_pos rfl]
      cases command : task.command with
      | nil => exact .throw _
      | cons cmd args =>
          have ready : (discipline machine).ready k task := ⟨pass, by simp [command]⟩
          have issue : (discipline machine).issue task = .spawn cmd args := by
            simp [discipline, command]
          rw [issue]
          refine .silent_bind (Performs.ofExcept _) fun _ _ => ?_
          refine .act_bind (Performs.emit rfl (by simp) ready) ?_
          refine .silent_bind (waitTurns_performs _) fun _ _ => ?_
          exact .silent_bind (Performs.sink _) fun _ _ => Performs.count

end SimpleExecutor

/-- The loop of `execute` follows the part of the schedule that concerns the tasks. -/
theorem runTasks_performs {d : Discipline} {body : Nat → PlannedTask → Exec PUnit}
    (spec : ∀ k task, Performs (body k task)
      (task.ensures.map (fun ensure => ⟨d.query ensure, d.up⟩) ++
        [⟨d.issue task, d.ready k task⟩, ⟨.counted, True⟩]) fun _ => True)
    (k : Nat) (tasks : List PlannedTask) :
    Performs (runTasks body k tasks) (d.tasks k tasks) fun _ => True := by
  induction tasks generalizing k with
  | nil => exact .pure trivial
  | cons task tasks ih =>
      have whole := (spec k task).bind fun _ _ => ih (k + 1)
      simpa [Discipline.tasks, runTasks] using whole

theorem SimpleExecutor.execute_performs (plan : Plan) (machine : LocalHost) :
    Performs (execute plan machine) ((discipline machine).schedule plan.blueprint)
      fun _ => True := by
  refine .silent_bind (Performs.sink _) fun _ _ => .silent_bind (Performs.sink _) fun _ _ => ?_
  refine Follows.bind_silent (runTasks_performs (executeTask_performs machine) 0 plan.blueprint)
    fun _ _ => ?_
  refine .silent_bind Performs.get fun s _ => .silent_bind (Performs.sink _) fun _ _ => ?_
  exact .silent_bind (Performs.sink _) fun _ _ => .pure trivial

namespace SshExecutor

/-- The address that the executor connects to. -/
def address (host : Host) : String := s!"{host.host}:{host.port}"

/-- The SSH executor sends one command line for each query and each command, on a
session whose key has been accepted. -/
def discipline (host : Host) (server : SshHost) : Discipline where
  prelude := [⟨.connect (address host), True⟩, 
    ⟨.authenticate host.realRemoteUser, server.connect = .ok ⟨⟩⟩]
  query ensure := .exec (.check ensure)
  issue task := .exec (.command task)
  up := server.Connected
  ready k task := server.Connected ∧ (server.task k).EnsuresPass task
  prelude_silent := by simp [Event.Silent, Event.command]
  query_silent := fun _ => ⟨rfl, by simp⟩
  issue_uncounted := by simp
  issue_command := fun _ _ _ => rfl
  ready_up := fun _ _ ready => ready.1

theorem waitFrames_performs (frames : List ChannelMsg) :
    Performs (waitFrames frames) [] fun status =>
      Decodes frames ∧ status = (reportedStatus frames).getD 511 := by
  induction frames with
  | nil => exact .pure ⟨by simp [Decodes], rfl⟩
  | cons m frames ih =>
      obtain ⟨ends, run⟩ | ⟨goesOn, silent, run⟩ | ⟨goesOn, bytes, carries, round⟩ :=
        waitFrames_cons m frames
      · rw [run]
        exact .pure ⟨decodes_cons_of_ends ends, rfl⟩
      · rw [run, decodes_cons_of_silent goesOn silent, reportedStatus_cons goesOn]
        exact ih
      · simp only [decodes_cons goesOn, reportedStatus_cons goesOn, carries, Option.mem_def,
          Option.some.injEq, forall_eq']
        obtain ⟨-, run⟩ | ⟨text, valid, run⟩ := round
        · rw [run]
          exact .throw []
        · rw [run, valid]
          refine .silent_bind (Performs.sink _) fun _ _ => ih.mono ?_
          exact fun status answer => ⟨⟨rfl, answer.1⟩, answer.2⟩

theorem executeCommand_performs {guard : Prop} (h : guard) (request : Request)
    (channel : ChannelRun) :
    Performs (executeCommand request channel) [⟨.exec request, guard⟩] channel.Answers := by
  refine .silent_bind (Performs.ofExcept _) fun _ opened =>
    .silent_bind (Performs.ofExcept _) fun _ sent => ?_
  refine .act_bind (Performs.emit rfl (by simp) h) ((waitFrames_performs channel.frames).mono ?_)
  exact fun status answer => ⟨⟨opened, sent⟩, answer.1, answer.2⟩

theorem ensureTask_performs {up : Prop} (h : up) (check : Nat → ChannelRun) (i : Nat)
    (ensures : List Ensure) :
    Performs (ensureTask check i ensures)
      (ensures.map fun ensure => ⟨.exec (.check ensure), up⟩) fun failures => failures = [] →
        ∀ j, ∀ ensure ∈ ensures[j]?,
          ∃ status, (check (i + j)).Answers status ∧ ensure.passes status := by
  induction ensures generalizing i with
  | nil => exact .pure (by simp)
  | cons ensure ensures ih =>
      rw [forall_numbered_cons fun j (e : Ensure) =>
        ∃ status, (check j).Answers status ∧ e.passes status]
      refine .silent_bind (Performs.sink _) fun _ _ => ?_
      refine Follows.bind (executeCommand_performs h (.check ensure) (check i))
        fun status answers => ?_
      refine Follows.bind_silent (ih (i + 1)) fun failures rest => .pure ?_
      cases pass : ensure.passes status with
      | false => simp
      | true => exact fun none => ⟨⟨status, answers, pass⟩, rest (by simpa using none)⟩

/-- One round of the loop of `execute`, on a session that is up. -/
theorem task_performs (host : Host) {server : SshHost} (connected : server.Connected) (k : Nat)
    (task : PlannedTask) :
    Performs (executeTask task (server.task k) >>= fun _ => Exec.count)
      (task.ensures.map (fun ensure =>
          ⟨(discipline host server).query ensure, (discipline host server).up⟩) ++
        [⟨(discipline host server).issue task, (discipline host server).ready k task⟩,
          ⟨.counted, True⟩]) fun _ => True := by
  have attempt : Performs (executeTask task (server.task k))
      (task.ensures.map (fun ensure =>
          ⟨(discipline host server).query ensure, (discipline host server).up⟩) ++
        [⟨(discipline host server).issue task, (discipline host server).ready k task⟩])
      fun _ => True := by
    refine .silent_bind (Performs.sink _) fun _ _ => ?_
    refine Follows.bind (ensureTask_performs connected (server.task k).check 0 task.ensures) ?_
    intro failedEnsures ensured
    cases failedEnsures with
    | cons failure failures => exact .silent_bind (Performs.sink _) fun _ _ => .throw _
    | nil =>
        have pass : (server.task k).EnsuresPass task := by
          simpa [SshTask.EnsuresPass] using ensured rfl
        refine .silent_bind (Performs.sink _) fun _ _ => ?_
        refine Follows.bind_silent (executeCommand_performs ⟨connected, pass⟩ _ _) fun _ _ => ?_
        exact .silent_bind (Performs.sink _) fun _ _ => .pure trivial
  simpa using attempt.bind fun _ _ => Performs.count

theorem execute_performs (host : Host) (hostname : String) (plan : Plan) (server : SshHost) :
    Performs (execute host hostname plan server)
      ((discipline host server).schedule plan.blueprint) fun _ => True := by
  refine .silent_bind (Performs.sink _) fun _ _ => ?_
  refine .act_bind (Performs.emit rfl (by simp) trivial) ?_
  refine .silent_bind (Performs.ofExcept _) fun _ connect => ?_
  refine .act_bind (Performs.emit rfl (by simp) connect) ?_
  refine .silent_bind (Performs.ofExcept _) fun authenticated auth => ?_
  cases authenticated with
  | true =>
      have connected : server.Connected := ⟨connect, auth⟩
      refine Follows.bind_silent (runTasks_performs (task_performs host connected) 0 plan.blueprint)
        fun _ _ => ?_
      refine .silent_bind Performs.get fun s _ => .silent_bind (Performs.sink _) fun _ _ => ?_
      exact .silent_bind (Performs.sink _) fun _ _ => .pure trivial
  | false =>
      refine .silent_bind (Performs.sink _) fun _ _ => .silent_bind (Performs.sink _) fun _ _ => ?_
      exact .throw _

end SshExecutor

/-- For every plan, every host and every behaviour of the log receiver, the runs of
both executors act in the order of the blueprint, and a command needs that every ensure
of its task has passed. Nothing is sent over SSH before the key has been accepted. -/
theorem execute_ordered (plan : Plan) (machine : LocalHost) (host : Host) (hostname : String)
    (server : SshHost) (receiver : Option Nat) :
    OrderedRun (SimpleExecutor.discipline machine) plan.blueprint
        (outcome (SimpleExecutor.execute plan machine (.fresh receiver)))
        (finalState (SimpleExecutor.execute plan machine (.fresh receiver))) ∧
      OrderedRun (SshExecutor.discipline host server) plan.blueprint
        (outcome (SshExecutor.execute host hostname plan server (.fresh receiver)))
        (finalState (SshExecutor.execute host hostname plan server (.fresh receiver))) ∧
      ∀ request, .exec request ∈
          (finalState (SshExecutor.execute host hostname plan server (.fresh receiver))).events →
        server.authenticate = .ok true := by
  have ssh := (SshExecutor.execute_performs host hostname plan server).orderedRun receiver
  refine ⟨(SimpleExecutor.execute_performs plan machine).orderedRun receiver, ssh, ?_⟩
  intro request sent
  have connected : server.Connected := by
    refine ssh.up (.exec request) (List.mem_filter.mpr ⟨sent, rfl⟩) ?_ (by simp)
    simp [SshExecutor.discipline]
  exact connected.authenticate

end There
