import There.Executor.Simple
import There.Executor.Ssh

/-!
# Failing commands and the end of the stream

Two duties of `execute` towards its caller. A command that does not exit with
status zero must stop the run, keep it from returning `Ok`, and not be counted;
and the log stream must be ended on every path.

Neither executor looks at the exit of a command, and a run that stops at an error
leaves the stream open. Both duties are characterised by the behaviours of the
host under which they are met.
-/

namespace There

/-- Every command that fails is detected: `Ok` means that all commands were issued
and exited well, the commands that exited well are counted, and only the last
command issued may have failed. -/
structure FailureDetected (exited : Nat → Prop) [DecidablePred exited]
    (blueprint : List PlannedTask) (r : Except Abort Unit) (s : Record) : Prop where
  inOrder : commands s.events <+: blueprint.map PlannedTask.command
  ok : r = .ok ⟨⟩ →
    (commands s.events).length = blueprint.length ∧ ∀ k < blueprint.length, exited k
  counted : s.tasksCompleted = Nat.count exited (commands s.events).length
  stops : ∀ k, k + 1 < (commands s.events).length → exited k

/-- A run issues the command of task number `k` once the tasks before it are done. -/
structure Issues (reaches done : Nat → PlannedTask → Prop) (blueprint : List PlannedTask)
    (k : Nat) (task : PlannedTask) : Prop where
  listed : blueprint[k]? = some task
  before : ∀ j < k, ∀ t ∈ blueprint[j]?, done j t
  reaches : reaches k task

section General

variable {started refused : Prop} {reaches done : Nat → PlannedTask → Prop}
variable {blueprint : List PlannedTask} {r : Except Abort Unit} {s : Record} {n m : Nat}
variable {exited : Nat → Prop} [DecidablePred exited]

namespace Applied

/-- The commands issued are those of the first `m` tasks. -/
theorem issues_iff (h : Applied started refused reaches done blueprint r s.events n m)
    (imp : ∀ k task, done k task → reaches k task) {k : Nat} {task : PlannedTask}
    (listed : blueprint[k]? = some task) :
    Issues reaches done blueprint k task ↔ k < m := by
  rw [h.progress.issued_iff imp listed]
  simp only [Nat.zero_add]
  exact ⟨fun hi => ⟨hi.before, hi.reaches⟩, fun hi => ⟨listed, hi.1, hi.2⟩⟩

/-- Among the tasks whose commands are issued, the first `n` are done. -/
theorem done_iff (h : Applied started refused reaches done blueprint r s.events n m)
    (imp : ∀ k task, done k task → reaches k task) {k : Nat} {task : PlannedTask}
    (hi : Issues reaches done blueprint k task) : done k task ↔ k < n := by
  constructor
  · intro hd
    by_contra ge
    obtain rfl : k = n := by
      have := (h.issues_iff imp hi.listed).mp hi
      have := h.progress.issued
      omega
    exact h.progress.stuck task hi.listed (by simpa using hd)
  · intro lt
    simpa using h.progress.finished k lt task hi.listed

/-- The executors count the tasks that are done and stop at the first that is not. So
they detect failing commands exactly when a command that is issued exits well if
and only if its task is done. -/
theorem detected_iff (h : Applied started refused reaches done blueprint r s.events n m)
    (imp : ∀ k task, done k task → reaches k task)
    (counts : s.tasksCompleted = s.events.count .counted) :
    FailureDetected exited blueprint r s ↔
      ∀ k task, Issues reaches done blueprint k task → (exited k ↔ done k task) := by
  have bounds : n ≤ m ∧ m ≤ n + 1 ∧ m ≤ blueprint.length := by
    have := h.progress.issued
    have := h.progress.le
    omega
  have issued : (commands s.events).length = m := by
    rw [h.progress.commands, List.length_map, List.length_take, Nat.min_eq_left bounds.2.2]
  have completed : s.tasksCompleted = n := by rw [counts, h.progress.counted]
  have byNumber : (∀ k task, Issues reaches done blueprint k task → (exited k ↔ done k task)) ↔
      ∀ k < m, (exited k ↔ k < n) := by
    constructor
    · intro all k lt
      have listed : blueprint[k]? = some blueprint[k] := List.getElem?_eq_getElem (by omega)
      have hi := (h.issues_iff imp listed).mpr lt
      rw [all k _ hi, h.done_iff imp hi]
    · intro all k task hi
      rw [h.done_iff imp hi]
      exact all k ((h.issues_iff imp hi.listed).mp hi)
  rw [byNumber]
  constructor
  · intro detected k lt
    have counted := detected.counted
    rw [completed, issued] at counted
    rcases h.progress.issued with rfl | ⟨rfl, -⟩
    · exact iff_of_true (Nat.count_iff_forall.mp counted.symm k lt) lt
    · have stops : ∀ k < n, exited k := fun k lt => detected.stops k (by omega)
      rw [Nat.count_succ, Nat.count_iff_forall.mpr stops] at counted
      rcases Nat.lt_succ_iff_lt_or_eq.mp lt with lt | rfl
      · exact iff_of_true (stops k lt) lt
      · refine iff_of_false (fun he => ?_) (Nat.lt_irrefl k)
        simp [he] at counted
  · intro all
    have well : ∀ k < n, exited k := fun k lt => (all k (by omega)).mpr lt
    refine ⟨?_, fun hr => ?_, ?_, fun k lt => well k (by omega)⟩
    · rw [h.progress.commands]
      exact (List.take_prefix m blueprint).map _
    · obtain rfl := (h.ok.mp hr).2
      exact ⟨by omega, well⟩
    · rw [completed, issued]
      rcases h.progress.issued with rfl | ⟨rfl, -⟩
      · exact (Nat.count_iff_forall.mpr well).symm
      · have fails : ¬ exited n := fun he =>
          Nat.lt_irrefl n ((all n (Nat.lt_succ_self n)).mp he)
        rw [Nat.count_succ, if_neg fails, Nat.count_iff_forall.mpr well, Nat.add_zero]

/-- The stream is ended when the host refuses the run or every task is done. -/
theorem ended_iff (h : Applied started refused reaches done blueprint r s.events n m) :
    EndsStream s.events ↔
      refused ∨ started ∧ ∀ k, ∀ task ∈ blueprint[k]?, done k task := by
  have iff : EndsStream s.events ↔ refused ∨ r = .ok ⟨⟩ :=
    ⟨fun ends => by_contra fun no => not_endsStream (h.unended no) ends, h.ended⟩
  rw [iff, h.ok, h.progress.complete_iff]
  simp only [Nat.zero_add]

end Applied

end General

/-- The run of a fresh local executor whose log receiver is kept open. -/
def SimpleExecutor.run (plan : Plan) (behaviour : LocalHost) :
    EStateM.Result Abort Record Unit :=
  execute plan behaviour (.fresh none)

/-- The run of a fresh SSH executor whose log receiver is kept open. -/
def SshExecutor.run (host : Host) (hostname : String) (plan : Plan) (behaviour : SshHost) :
    EStateM.Result Abort Record Unit :=
  execute host hostname plan behaviour (.fresh none)

/-- The local executor detects failing commands exactly when every process it starts
exits with code zero. The SSH executor does exactly when every command it issues
either exits with status zero and prints text, or does neither. -/
theorem failureDetected_iff (plan : Plan) (machine : LocalHost) (host : Host)
    (hostname : String) (server : SshHost) :
    (FailureDetected (fun k => (machine.task k).child.exitCode = some 0) plan.blueprint
        (Effect.outcome (SimpleExecutor.run plan machine))
        (Effect.finalState (SimpleExecutor.run plan machine)) ↔
      ∀ k task, Issues machine.Reaches machine.Reaches plan.blueprint k task →
        (machine.task k).child.exitCode = some 0) ∧
    (FailureDetected (fun k => reportedStatus (server.task k).command.frames = some 0)
        plan.blueprint (Effect.outcome (SshExecutor.run host hostname plan server))
        (Effect.finalState (SshExecutor.run host hostname plan server)) ↔
      ∀ k task, Issues server.Reaches server.Done plan.blueprint k task →
        (reportedStatus (server.task k).command.frames = some 0 ↔
          Decodes (server.task k).command.frames)) := by
  constructor
  · obtain ⟨⟨n, m, applied⟩, counts⟩ := (SimpleExecutor.execute_emits plan machine).fresh
    refine (applied.detected_iff (fun _ _ h => h) counts).trans ?_
    exact forall_congr' fun k => forall_congr' fun task => imp_congr_right fun hi =>
      iff_true_right hi.reaches
  · obtain ⟨⟨n, m, applied⟩, counts⟩ :=
      (SshExecutor.execute_emits host hostname plan server).fresh
    refine (applied.detected_iff (fun _ _ h => h.reaches) counts).trans ?_
    refine forall_congr' fun k => forall_congr' fun task => imp_congr_right fun hi =>
      iff_congr Iff.rfl ?_
    exact ⟨fun h => h.isDone.decodes, fun h => ⟨hi.reaches.connected, hi.reaches.reaches, h⟩⟩

namespace ExitOne

/-- One task, whose command exits with status one. -/
def plan : Plan :=
  ⟨"test", [⟨"fail", ["false"], [.exeExists "false"], ["localhost"]⟩]⟩

def machine : LocalHost where
  task _ :=
    { probe := fun _ => ⟨.ok .file, .ok .file, .ok ⟨⟩⟩
      child := ⟨.ok ⟨⟩, [.exhausted], some 1⟩ }

def host : Host := { host := "127.0.0.1", executor := "ssh" }

def server : SshHost where
  connect := .ok ⟨⟩
  authenticate := .ok true
  task _ :=
    { check := fun _ => ⟨.ok ⟨⟩, .ok ⟨⟩, [.exitStatus 0, .close]⟩
      command := ⟨.ok ⟨⟩, .ok ⟨⟩, [.exitStatus 1, .eof, .close]⟩ }

end ExitOne

theorem failure_not_detected :
    ¬ FailureDetected (fun k => (ExitOne.machine.task k).child.exitCode = some 0)
        ExitOne.plan.blueprint (Effect.outcome (SimpleExecutor.run ExitOne.plan ExitOne.machine))
        (Effect.finalState (SimpleExecutor.run ExitOne.plan ExitOne.machine)) ∧
      ¬ FailureDetected (fun k => reportedStatus (ExitOne.server.task k).command.frames = some 0)
        ExitOne.plan.blueprint
        (Effect.outcome (SshExecutor.run ExitOne.host "localhost" ExitOne.plan ExitOne.server))
        (Effect.finalState
          (SshExecutor.run ExitOne.host "localhost" ExitOne.plan ExitOne.server)) := by
  constructor
  · intro detected
    exact absurd ((detected.ok rfl).2 0 (by decide)) (by decide)
  · intro detected
    exact absurd ((detected.ok rfl).2 0 (by decide)) (by decide)

/-- The local executor ends its stream exactly when it can start every process, and
the SSH executor exactly when its key is refused or it executes every task. -/
theorem endsStream_iff (plan : Plan) (machine : LocalHost) (host : Host) (hostname : String)
    (server : SshHost) :
    (EndsStream (Effect.finalState (SimpleExecutor.run plan machine)).events ↔
      ∀ k, ∀ task ∈ plan.blueprint[k]?, machine.Reaches k task) ∧
    (EndsStream (Effect.finalState (SshExecutor.run host hostname plan server)).events ↔
      server.Refuses ∨
        server.Connected ∧ ∀ k, ∀ task ∈ plan.blueprint[k]?, server.Done k task) := by
  constructor
  · obtain ⟨⟨n, m, applied⟩, -⟩ := (SimpleExecutor.execute_emits plan machine).fresh
    exact applied.ended_iff.trans (by simp)
  · obtain ⟨⟨n, m, applied⟩, -⟩ := (SshExecutor.execute_emits host hostname plan server).fresh
    exact applied.ended_iff

namespace NoConnection

/-- A server that refuses the connection. -/
def server : SshHost where
  connect := .error (.msg "Connection refused (os error 111)")
  authenticate := .ok true
  task _ :=
    { check := fun _ => ⟨.ok ⟨⟩, .ok ⟨⟩, [.exitStatus 0, .close]⟩
      command := ⟨.ok ⟨⟩, .ok ⟨⟩, [.exitStatus 0, .eof, .close]⟩ }

/-- A machine on which no executable is found. -/
def machine : LocalHost where
  task _ :=
    { probe := fun _ => ⟨.ok .file, .ok .file, .error (.msg "cannot find binary path")⟩
      child := ⟨.ok ⟨⟩, [.exhausted], some 0⟩ }

end NoConnection

theorem stream_not_ended :
    ¬ EndsStream (Effect.finalState (SimpleExecutor.run ExitOne.plan NoConnection.machine)).events ∧
      ¬ EndsStream (Effect.finalState (SshExecutor.run ExitOne.host "localhost" ExitOne.plan
        NoConnection.server)).events :=
  ⟨not_endsStream (by decide), not_endsStream (by decide)⟩

end There
