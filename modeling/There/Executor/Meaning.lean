import There.Effect.Guarded
import There.Executor.FileSystem

/-!
# What a plan means

A plan is a program of guarded commands. On a computer it has a meaning for each executor:
how many tasks are executed, and what they leave of the state. The local executor starts the
commands itself, the SSH executor has them started by a shell. What the executors log, count
and return is what the plan means.

The commands are taken to come to an end one after the other, which the local executor does
not see to.
-/

namespace There

open Effect

/-- A computer that is in one of the states `σ`. -/
structure Computer (σ : Type) where
  view : σ → FileSystem
  /-- Run an argument vector to its end, if a process can be started for it. -/
  exec : List String → σ → Option σ
  /-- Have the shell of the remote user run a line. -/
  shell : String → σ → σ
  exec_nil : ∀ s, exec [] s = none
  /-- What can be started is what is found. No word may hold a null character. -/
  exec_isSome : ∀ exe args s, (exec (exe :: args) s).isSome ↔
    (view s).which exe ∧ ∀ word ∈ exe :: args, '\x00' ∉ word.toList
  /-- The shell reports what it cannot start. -/
  shell_eq : ∀ line words s, Shell.simpleCommand line = some words →
    shell line s = (exec words s).getD s

namespace Computer

variable {σ : Type} (c : Computer σ)

/-- The computer as the local executor finds it. -/
def locally : Guarded.Machine σ Ensure (List String) where
  holds ensure s := (c.view s).passesLocally ensure
  start := c.exec

/-- The computer behind an SSH server. The shell always starts. -/
def remotely : Guarded.Machine σ Ensure (List String) where
  holds ensure s := (c.view s).passesRemotely ensure
  start words s := some (c.shell (" ".intercalate words) s)

end Computer

def PlannedTask.step (task : PlannedTask) : Guarded.Step Ensure (List String) :=
  ⟨task.ensures, task.command⟩

def Plan.program (plan : Plan) : List (Guarded.Step Ensure (List String)) :=
  plan.blueprint.map PlannedTask.step

theorem Plan.commands_take (plan : Plan) (n : Nat) :
    (plan.blueprint.take n).map PlannedTask.command =
      (plan.program.take n).map Guarded.Step.command := by
  rw [Plan.program, ← List.map_take, List.map_map]
  rfl

/-- The run does what the plan means in the state `s`. -/
structure Means {σ : Type} (m : Guarded.Machine σ Ensure (List String)) (plan : Plan) (s : σ)
    (run : EStateM.Result Abort Record Unit) : Prop where
  ok : outcome run = .ok ⟨⟩ ↔ m.Completes plan.program s
  tasksCompleted : (finalState run).tasksCompleted = (m.apply plan.program s).1
  commands : commands (finalState run).events =
    (plan.blueprint.take (m.apply plan.program s).1).map PlannedTask.command
  state : m.after (There.commands (finalState run).events) s = (m.apply plan.program s).2

/-- Machines that apply the plan alike are as good as each other. -/
theorem Means.congr {σ : Type} {m m' : Guarded.Machine σ Ensure (List String)} {plan : Plan}
    {s : σ} {run : EStateM.Result Abort Record Unit} (h : Means m plan s run)
    (same : m.apply plan.program s = m'.apply plan.program s) : Means m' plan s run := by
  have commands := h.commands
  rw [same] at commands
  refine ⟨?_, ?_, commands, ?_⟩
  · rw [h.ok, Guarded.Machine.Completes, Guarded.Machine.Completes, same]
  · rw [h.tasksCompleted, same]
  · rw [commands, plan.commands_take, Guarded.Machine.after_apply]

section Follows

variable {σ : Type} {m : Guarded.Machine σ Ensure (List String)}
variable {reaches done : Nat → PlannedTask → Prop} {k n i : Nat} {s : σ}
variable {tasks : List PlannedTask} {es : List Event}

/-- The host does with each task what the machine does in the state that the tasks before
have left. -/
def Follows (m : Guarded.Machine σ Ensure (List String)) (reaches done : Nat → PlannedTask → Prop) :
    Nat → List PlannedTask → σ → Prop
  | _, [], _ => True
  | k, task :: tasks, s =>
      (reaches k task ↔ (m.take task.step s).isSome) ∧ (done k task ↔ (m.take task.step s).isSome) ∧
        ∀ t, m.take task.step s = some t → Follows m reaches done (k + 1) tasks t

/-- The tasks that are taken are done, and the next one is not even reached. -/
theorem Follows.done_and_stuck (h : Follows m reaches done k tasks s) :
    (∀ i < (m.apply (tasks.map PlannedTask.step) s).1, ∀ task ∈ tasks[i]?, done (k + i) task) ∧
      ∀ task ∈ tasks[(m.apply (tasks.map PlannedTask.step) s).1]?,
        ¬ reaches (k + (m.apply (tasks.map PlannedTask.step) s).1) task := by
  induction tasks generalizing k s with
  | nil => simp
  | cons task tasks ih =>
      obtain ⟨reached, isDone, rest⟩ := h
      rw [List.map_cons]
      cases taken : m.take task.step s with
      | none =>
          rw [Guarded.Machine.apply_cons_of_none taken]
          refine ⟨fun i lt => absurd lt (Nat.not_lt_zero i), ?_⟩
          rintro t ⟨⟩
          simp [reached, taken]
      | some t =>
          obtain ⟨finished, stuck⟩ := ih (rest t taken)
          rw [Guarded.Machine.apply_cons_of_some taken]
          have shift : ∀ i, k + (i + 1) = k + 1 + i := fun i => by omega
          constructor
          · intro i lt u hu
            cases i with
            | zero =>
                obtain rfl : task = u := by simpa using hu
                simp [isDone, taken]
            | succ i =>
                rw [shift]
                exact finished i (by omega) u (by simpa using hu)
          · intro u hu
            rw [shift]
            exact stuck u (by simpa using hu)

end Follows

section Applied

variable {σ : Type} {m : Guarded.Machine σ Ensure (List String)}
variable {started refused : Prop} {reaches done : Nat → PlannedTask → Prop} {n n' : Nat}
variable {plan : Plan} {run : EStateM.Result Abort Record Unit} {s : σ}

/-- An executor does what the plan means if its host follows the machine. -/
theorem Applied.means (h : Applied started refused reaches done plan.blueprint (outcome run)
      (finalState run).events n n') (isStarted : started)
    (imp : ∀ k task, done k task → reaches k task)
    (counts : (finalState run).tasksCompleted = (finalState run).events.count .counted)
    (follows : Follows m reaches done 0 plan.blueprint s) : Means m plan s run := by
  obtain ⟨finished, stuck⟩ := follows.done_and_stuck
  simp only [Nat.zero_add] at finished stuck
  have length : plan.program.length = plan.blueprint.length := List.length_map _
  have le : (m.apply plan.program s).1 ≤ plan.blueprint.length :=
    length ▸ Guarded.Machine.apply_fst_le _ _
  -- Both numbers are that of the first task that is not done.
  have same : n = (m.apply plan.program s).1 := by
    rcases Nat.lt_trichotomy n (m.apply plan.program s).1 with before | same | after
    · have lt : n < plan.blueprint.length := by omega
      have listed := List.getElem?_eq_getElem lt
      exact absurd (finished n before _ listed) (by simpa using h.progress.stuck _ listed)
    · exact same
    · have lt : (m.apply plan.program s).1 < plan.blueprint.length :=
        Nat.lt_of_lt_of_le after h.progress.le
      have listed := List.getElem?_eq_getElem lt
      have isDone := h.progress.finished _ after _ listed
      rw [Nat.zero_add] at isDone
      exact absurd (imp _ _ isDone) (stuck _ listed)
  subst same
  have issued : n' = (m.apply plan.program s).1 := by
    rcases h.progress.issued with issued | ⟨issued, lt⟩
    · exact issued
    · have listed := List.getElem?_eq_getElem lt
      have reached := (h.progress.reached _ listed).mpr issued
      rw [Nat.zero_add] at reached
      exact absurd reached (stuck _ listed)
  have commands := h.progress.commands
  rw [issued] at commands
  refine ⟨?_, ?_, commands, ?_⟩
  · rw [h.ok, and_iff_right isStarted, Guarded.Machine.Completes, length]
  · rw [counts, h.progress.counted]
  · rw [commands, plan.commands_take, Guarded.Machine.after_apply]

end Applied

section Hosts

variable {σ : Type} {c : Computer σ} {k : Nat} {s : σ} {task : PlannedTask}

/-- The data of a local run are those of a computer that is in the state `s` when task number
`k` begins. -/
def LocalHost.RunsOn (c : Computer σ) (host : LocalHost) : Nat → List PlannedTask → σ → Prop
  | _, [], _ => True
  | k, task :: tasks, s =>
      (host.task k).Shows (c.view s) task.ensures ∧
        (host.task k).child.spawn.isOk = (c.exec task.command s).isSome ∧
        ∀ t, c.locally.take task.step s = some t → LocalHost.RunsOn c host (k + 1) tasks t

/-- The same for a server, which accepts every command and prints text. -/
def SshHost.RunsOn (c : Computer σ) (host : SshHost) : Nat → List PlannedTask → σ → Prop
  | _, [], _ => True
  | k, task :: tasks, s =>
      (host.task k).Shows (c.view s) task.ensures ∧
        (host.task k).command.Accepted ∧ Decodes (host.task k).command.frames ∧
        ∀ t, c.remotely.take task.step s = some t → SshHost.RunsOn c host (k + 1) tasks t

/-- What holds of every listed ensure holds of every ensure. -/
theorem forall_listed {α : Type} {xs : List α} {P : α → Prop} :
    (∀ i : Nat, ∀ x ∈ xs[i]?, P x) ↔ ∀ x ∈ xs, P x := by
  refine ⟨fun h x member => ?_, fun h i x listed => h x (List.mem_of_getElem? listed)⟩
  obtain ⟨i, listed⟩ := List.getElem?_of_mem member
  exact h i x listed

theorem LocalTask.reaches_iff {host : LocalTask} (shows : host.Shows (c.view s) task.ensures)
    (spawn : host.child.spawn.isOk = (c.exec task.command s).isSome) :
    host.Reaches task ↔ (c.locally.take task.step s).isSome := by
  have ensured : host.EnsuresPass task ↔
      task.ensures.all ((c.view s).passesLocally ·) := by
    rw [List.all_eq_true, ← forall_listed]
    refine forall_congr' fun i => forall_congr' fun ensure => forall_congr' fun listed => ?_
    rw [Probe.query_eq (shows i ensure listed)]
    exact ⟨Except.ok.inj, congrArg _⟩
  have started : host.child.spawn = .ok ⟨⟩ ↔ (c.exec task.command s).isSome := by
    rw [← spawn]
    cases host.child.spawn <;> simp
  have some : (c.exec task.command s).isSome → task.command ≠ [] := by
    intro found none
    rw [none, c.exec_nil] at found
    cases found
  have taken : (c.locally.take task.step s).isSome ↔
      task.ensures.all ((c.view s).passesLocally ·) ∧ (c.exec task.command s).isSome := by
    change (if task.ensures.all ((c.view s).passesLocally ·) then _ else none : Option σ).isSome ↔ _
    split <;> simp [*, Computer.locally, PlannedTask.step]
  rw [taken]
  exact ⟨fun h => ⟨ensured.mp h.ensured, started.mp h.spawn⟩,
    fun h => ⟨ensured.mpr h.1, some h.2, started.mpr h.2⟩⟩

/-- The checks of the ensures are read as they are meant. -/
def PlannedTask.Checkable (task : PlannedTask) : Prop :=
  ∀ ensure ∈ task.ensures, Shell.simpleCommand ensure.checkLine = some ensure.words

theorem SshTask.ensuresPass_iff {host : SshTask} {fs : FileSystem} (readable : task.Checkable)
    (shows : host.Shows fs task.ensures) :
    host.EnsuresPass task ↔ task.ensures.all (fs.passesRemotely ·) := by
  rw [List.all_eq_true, ← forall_listed]
  refine forall_congr' fun i => forall_congr' fun ensure => forall_congr' fun listed => ?_
  have read := readable ensure (List.mem_of_getElem? listed)
  obtain ⟨status, ran, passes⟩ : ∃ status, fs.runLine ensure.checkLine = some (status, fs) ∧
      ensure.passes status = fs.passesRemotely ensure := by
    rw [FileSystem.runLine, read, Option.bind_some]
    have zero : ∀ holds : Bool, (FileSystem.statusOf holds == 0) = holds ∧
        (FileSystem.statusOf holds != 0) = !holds := by decide
    cases ensure with
    | directoryDoesntExist path => exact ⟨_, rfl, (zero _).2⟩
    | directoryExists path => exact ⟨_, rfl, (zero _).1⟩
    | fileDoesntExist path => exact ⟨_, rfl, (zero _).2⟩
    | fileExists path => exact ⟨_, rfl, (zero _).1⟩
    | exeExists exe => exact ⟨_, rfl, (zero _).1⟩
  have answers := shows i ensure listed status fs ran
  rw [← passes]
  refine ⟨?_, fun pass => ⟨status, answers, pass⟩⟩
  rintro ⟨status', answers', pass⟩
  rwa [answers.status, ← answers'.status]

theorem SshTask.take_isSome {host : SshTask} (readable : task.Checkable)
    (shows : host.Shows (c.view s) task.ensures) :
    host.EnsuresPass task ↔ (c.remotely.take task.step s).isSome := by
  rw [SshTask.ensuresPass_iff readable shows]
  change _ ↔ (if task.ensures.all ((c.view s).passesRemotely ·) then _ else none : Option σ).isSome
  split <;> simp [*, Computer.remotely]

theorem LocalHost.RunsOn.follows {host : LocalHost} {tasks : List PlannedTask}
    (h : host.RunsOn c k tasks s) : Follows c.locally host.Reaches host.Reaches k tasks s := by
  induction tasks generalizing k s with
  | nil => trivial
  | cons task tasks ih =>
      obtain ⟨shows, spawn, rest⟩ := h
      have reaches := LocalTask.reaches_iff shows spawn
      exact ⟨reaches, reaches, fun t taken => ih (rest t taken)⟩

theorem SshHost.RunsOn.follows {host : SshHost} {tasks : List PlannedTask}
    (connected : host.Connected) (readable : ∀ task ∈ tasks, task.Checkable)
    (h : host.RunsOn c k tasks s) : Follows c.remotely host.Reaches host.Done k tasks s := by
  induction tasks generalizing k s with
  | nil => trivial
  | cons task tasks ih =>
      obtain ⟨shows, accepted, decodes, rest⟩ := h
      obtain ⟨first, readable⟩ := List.forall_mem_cons.mp readable
      have passes := SshTask.take_isSome (c := c) first shows
      refine ⟨?_, ?_, fun t taken => ih readable (rest t taken)⟩
      · rw [← passes]
        exact ⟨fun h => h.reaches.ensured, fun h => ⟨connected, h, accepted⟩⟩
      · rw [← passes]
        exact ⟨fun h => h.isDone.reaches.ensured, fun h => ⟨connected, ⟨h, accepted⟩, decodes⟩⟩

/-- A local run does what the plan means. -/
theorem LocalHost.RunsOn.means {host : LocalHost} {plan : Plan}
    (h : host.RunsOn c 0 plan.blueprint s) :
    Means c.locally plan s (SimpleExecutor.execute plan host (.fresh none)) := by
  obtain ⟨⟨n, n', applied⟩, counts⟩ := (SimpleExecutor.execute_emits plan host).fresh
  exact applied.means trivial (fun _ _ h => h) counts h.follows

/-- So does a run on a server. -/
theorem SshHost.RunsOn.means {host : SshHost} {plan : Plan} (config : Host) (hostname : String)
    (connected : host.Connected) (readable : ∀ task ∈ plan.blueprint, task.Checkable)
    (h : host.RunsOn c 0 plan.blueprint s) :
    Means c.remotely plan s (SshExecutor.execute config hostname plan host (.fresh none)) := by
  obtain ⟨⟨n, n', applied⟩, counts⟩ :=
    (SshExecutor.execute_emits config hostname plan host).fresh
  exact applied.means connected (fun _ _ h => h.reaches) counts (h.follows connected readable)

end Hosts

/-- Each executor does on a computer what the plan means there: it executes the tasks up to
the first whose ensures do not pass or whose command cannot be started, it counts them, it
returns without an error if these are all tasks, and their commands are all that it runs. -/
theorem execute_means {σ : Type} (c : Computer σ) (plan : Plan) (s : σ) (machine : LocalHost)
    (here : machine.RunsOn c 0 plan.blueprint s) (host : Host) (hostname : String)
    (server : SshHost) (connected : server.Connected)
    (readable : ∀ task ∈ plan.blueprint, task.Checkable)
    (there : server.RunsOn c 0 plan.blueprint s) :
    Means c.locally plan s (SimpleExecutor.execute plan machine (.fresh none)) ∧
      Means c.remotely plan s (SshExecutor.execute host hostname plan server (.fresh none)) :=
  ⟨here.means, there.means host hostname connected readable⟩

namespace EchoComputer

/-- A computer that has `echo` and nothing else. Its state is what has been run. -/
def fs : FileSystem where
  kind _ := none
  container _ := false
  which exe := exe == "echo"
  empty := by decide

def exec : List String → List (List String) → Option (List (List String))
  | [], _ => none
  | exe :: args, ran =>
      if exe == "echo" ∧ ∀ word ∈ exe :: args, '\x00' ∉ word.toList then
        some (ran ++ [exe :: args])
      else
        none

def computer : Computer (List (List String)) where
  view _ := fs
  exec := exec
  shell line ran := ((Shell.simpleCommand line).bind (exec · ran)).getD ran
  exec_nil _ := rfl
  exec_isSome exe args ran := by
    rw [exec]
    split
    · exact iff_of_true rfl ‹_›
    · exact iff_of_false Bool.false_ne_true ‹_›
  shell_eq line words ran read := by rw [read, Option.bind_some]

def task : PlannedTask := ⟨"greet", ["echo", "hi"], [.exeExists "echo"], ["web"]⟩

def plan : Plan := ⟨"greeting", [task]⟩

def machine : LocalHost where
  task _ :=
    { probe := fun _ => ⟨.error (.msg "No such file or directory"),
        .error (.msg "No such file or directory"), .ok ⟨⟩⟩
      child := ⟨.ok ⟨⟩, [.exhausted], some 0⟩ }

def server : SshHost where
  connect := .ok ⟨⟩
  authenticate := .ok true
  task _ :=
    { check := fun _ => ⟨.ok ⟨⟩, .ok ⟨⟩, [.exitStatus 0, .close]⟩
      command := ⟨.ok ⟨⟩, .ok ⟨⟩, [.exitStatus 0, .eof, .close]⟩ }

theorem checkable : task.Checkable := by
  intro ensure listed
  obtain rfl := List.mem_singleton.mp listed
  decide

theorem machine_runsOn (k : Nat) (ran : List (List String)) :
    machine.RunsOn computer k plan.blueprint ran := by
  refine ⟨fun i ensure listed => ?_, rfl, fun _ _ => trivial⟩
  obtain rfl := List.mem_singleton.mp (List.mem_of_getElem? listed)
  exact ⟨rfl, rfl, rfl⟩

theorem server_runsOn (k : Nat) (ran : List (List String)) :
    server.RunsOn computer k plan.blueprint ran := by
  refine ⟨fun i ensure listed status fs' checked => ?_, ⟨rfl, rfl⟩, ?_, fun _ _ => trivial⟩
  · obtain rfl := List.mem_singleton.mp (List.mem_of_getElem? listed)
    have read := checkable (.exeExists "echo") List.mem_cons_self
    rw [FileSystem.runLine, read, Option.bind_some] at checked
    obtain ⟨rfl, -⟩ := Prod.mk.inj (Option.some.inj checked)
    exact ⟨⟨rfl, rfl⟩, by simp [server, Decodes, ChannelMsg.ends], rfl⟩
  · simp [server, Decodes, ChannelMsg.ends]

end EchoComputer

theorem execute_means_echo :
    Means EchoComputer.computer.locally EchoComputer.plan []
        (SimpleExecutor.execute EchoComputer.plan EchoComputer.machine (.fresh none)) ∧
      Means EchoComputer.computer.remotely EchoComputer.plan []
        (SshExecutor.execute { host := "localhost", executor := "ssh" } "web" EchoComputer.plan
          EchoComputer.server (.fresh none)) := by
  have checkable : ∀ task ∈ EchoComputer.plan.blueprint, task.Checkable := by
    simpa [EchoComputer.plan] using EchoComputer.checkable
  exact execute_means EchoComputer.computer EchoComputer.plan [] EchoComputer.machine
    (EchoComputer.machine_runsOn 0 []) _ _ EchoComputer.server ⟨rfl, rfl⟩ checkable
    (EchoComputer.server_runsOn 0 [])

end There
