import There.Executor.Agreement
import There.Executor.TouchFile

/-!
# Applying plans one after the other

A plan does not depend on what has been applied before, and an executor leaves nothing behind
but what the commands have done. So a task set can be applied in two parts.

A task that touches a file or creates a directory says what is to be there. When a plan of
such tasks has been applied without an error all of it is there, and the plan can be applied
again without an error and without a change to the disk. Commands may be among the tasks if
they leave the disk alone.

It does not matter which executor applies which of the plans.
-/

namespace There

open Effect Posix

/-- The run applies the plan to a computer that is in the state `s`. -/
inductive Applies {σ : Type} (c : Computer σ) (plan : Plan) (s : σ) :
    EStateM.Result Abort Record Unit → Prop where
  | locally (machine : LocalHost) : machine.RunsOn c 0 plan.blueprint s →
      Applies c plan s (SimpleExecutor.execute plan machine (.fresh none))
  | remotely (host : Host) (hostname : String) (server : SshHost) : server.Connected →
      server.RunsOn c 0 plan.blueprint s →
      Applies c plan s (SshExecutor.execute host hostname plan server (.fresh none))

/-- The state in which a run leaves a computer that was in the state `s`. -/
def Computer.left {σ : Type} (c : Computer σ) (run : EStateM.Result Abort Record Unit)
    (s : σ) : σ :=
  c.locally.after (commands (finalState run).events) s

/-- Two runs that come one after the other come to the same as one. -/
structure InParts {σ : Type} (c : Computer σ) (s : σ)
    (run₁ run₂ run : EStateM.Result Abort Record Unit) : Prop where
  ok : outcome run = .ok ⟨⟩ ↔ outcome run₂ = .ok ⟨⟩
  tasksCompleted : (finalState run).tasksCompleted =
    (finalState run₁).tasksCompleted + (finalState run₂).tasksCompleted
  commands : commands (finalState run).events =
    There.commands (finalState run₁).events ++ There.commands (finalState run₂).events
  left : c.left run s = c.left run₂ (c.left run₁ s)

section Parts

variable {σ : Type} {c : Computer σ} {split : ShellSplit} {tasks tasks₁ tasks₂ : TaskSet}
variable {plan plan₁ plan₂ : Plan} {s : σ} {run run₁ : EStateM.Result Abort Record Unit}

/-- What a plan means does not depend on the executor, so it may be taken to be the local one. -/
theorem Applies.means (planning : tasks.plan split = .ok plan)
    (plain : ∀ planned ∈ plan.blueprint, Shell.PlainArgv planned.command)
    (mkdir : ∀ name path hosts, .createDirectory name path hosts ∈ tasks.tasks →
      ∀ s, (c.view s).which "mkdir") (h : Applies c plan s run) : Means c.locally plan s run := by
  cases h with
  | locally machine runsOn => exact runsOn.means
  | remotely host hostname server connected runsOn =>
      exact (runsOn.means host hostname connected (TaskSet.checkable planning plain)).congr
        (TaskSet.apply_eq planning plain mkdir s).symm

/-- The plan of a task set in two parts is made of the plans of the parts. -/
theorem TaskSet.blueprint_append (parts : tasks.tasks = tasks₁.tasks ++ tasks₂.tasks)
    (planning : tasks.plan split = .ok plan) (planning₁ : tasks₁.plan split = .ok plan₁)
    (planning₂ : tasks₂.plan split = .ok plan₂) :
    plan.blueprint = plan₁.blueprint ++ plan₂.blueprint := by
  have same : plan.blueprint.map Except.ok = tasks.tasks.map (Task.planned split) :=
    (TaskSet.plan_blueprint planning).2
  rw [parts, List.map_append, ← (TaskSet.plan_blueprint planning₁).2,
    ← (TaskSet.plan_blueprint planning₂).2, ← List.map_append] at same
  exact List.map_injective_iff.mpr (fun _ _ => Except.ok.inj) same

/-- A task set can be applied in two parts. If the first part fails, so does the whole, at the
same task and after the same commands. If it does not, the whole goes on as the second part
does from where the first has got to. -/
theorem applied_in_parts (parts : tasks.tasks = tasks₁.tasks ++ tasks₂.tasks)
    (planning : tasks.plan split = .ok plan) (planning₁ : tasks₁.plan split = .ok plan₁)
    (planning₂ : tasks₂.plan split = .ok plan₂)
    (plain : ∀ planned ∈ plan.blueprint, Shell.PlainArgv planned.command)
    (mkdir : ∀ name path hosts, .createDirectory name path hosts ∈ tasks.tasks →
      ∀ s, (c.view s).which "mkdir")
    (whole : Applies c plan s run) (first : Applies c plan₁ s run₁) :
    (outcome run₁ ≠ .ok ⟨⟩ → outcome run ≠ .ok ⟨⟩ ∧
      (finalState run).tasksCompleted = (finalState run₁).tasksCompleted ∧
      commands (finalState run).events = commands (finalState run₁).events ∧
      c.left run s = c.left run₁ s) ∧
    (outcome run₁ = .ok ⟨⟩ → ∀ run₂, Applies c plan₂ (c.left run₁ s) run₂ →
      InParts c s run₁ run₂ run) := by
  have blueprint := TaskSet.blueprint_append parts planning planning₁ planning₂
  have program : plan.program = plan₁.program ++ plan₂.program := by
    rw [Plan.program, blueprint, List.map_append]
    rfl
  rw [blueprint, List.forall_mem_append] at plain
  have mkdir₁ := fun name path hosts listed =>
    mkdir name path hosts (parts ▸ List.mem_append_left _ listed)
  have mkdir₂ := fun name path hosts listed =>
    mkdir name path hosts (parts ▸ List.mem_append_right _ listed)
  have all := whole.means planning (by rwa [blueprint, List.forall_mem_append]) mkdir
  have one := first.means planning₁ plain.1 mkdir₁
  have length : plan₁.program.length = plan₁.blueprint.length := List.length_map _
  have length₂ : plan₂.program.length = plan₂.blueprint.length := List.length_map _
  have le : (c.locally.apply plan₁.program s).1 ≤ plan₁.program.length :=
    Guarded.Machine.apply_fst_le _ _
  have apply := Guarded.Machine.apply_append (m := c.locally) plan₁.program plan₂.program s
  rw [← program] at apply
  constructor
  · intro failed
    have short : (c.locally.apply plan₁.program s).1 ≠ plan₁.program.length := mt one.ok.mpr failed
    rw [if_neg short] at apply
    refine ⟨fun ok => ?_, ?_, ?_, ?_⟩
    · have completes := all.ok.mp ok
      rw [Guarded.Machine.Completes, apply, program, List.length_append] at completes
      omega
    · rw [all.tasksCompleted, one.tasksCompleted, apply]
    · rw [all.commands, one.commands, apply, blueprint, List.take_append_of_le_length (by omega)]
    · exact (all.state.trans (congrArg Prod.snd apply)).trans one.state.symm
  · intro ok run₂ second
    have completes : (c.locally.apply plan₁.program s).1 = plan₁.program.length := one.ok.mp ok
    rw [if_pos completes] at apply
    have two := second.means planning₂ plain.2 mkdir₂
    have left : c.left run₁ s = (c.locally.apply plan₁.program s).2 := one.state
    rw [left] at two
    refine ⟨?_, ?_, ?_, ?_⟩
    · rw [all.ok, two.ok, Guarded.Machine.Completes, Guarded.Machine.Completes, apply, program,
        List.length_append, Nat.add_left_cancel_iff]
    · rw [all.tasksCompleted, one.tasksCompleted, two.tasksCompleted, apply, completes]
    · rw [all.commands, one.commands, two.commands, apply, completes, blueprint, length,
        List.take_length_add_append, List.take_length, List.map_append]
    · rw [left]
      exact (all.state.trans (congrArg Prod.snd apply)).trans two.state.symm

end Parts

/-- The local executor greets once, the SSH executor once more. That is what the local
executor does that greets twice. -/
theorem applied_in_parts_echo :
    InParts EchoComputer.computer []
      (SimpleExecutor.execute EchoComputer.plan EchoComputer.machine (.fresh none))
      (SshExecutor.execute { host := "localhost", executor := "ssh" } "web" EchoComputer.plan
        EchoComputer.server (.fresh none))
      (SimpleExecutor.execute ⟨"greetings", [EchoComputer.task, EchoComputer.task]⟩
        EchoComputer.machine (.fresh none)) := by
  have planning : TaskSet.plan EchoComputer.split ⟨"greeting", [EchoComputer.greet]⟩ =
      .ok EchoComputer.plan := rfl
  have planning' : TaskSet.plan EchoComputer.split
      ⟨"greetings", [EchoComputer.greet, EchoComputer.greet]⟩ =
      .ok ⟨"greetings", [EchoComputer.task, EchoComputer.task]⟩ := rfl
  have first := EchoComputer.machine_runsOn 0 []
  have both : EchoComputer.machine.RunsOn EchoComputer.computer 0
      [EchoComputer.task, EchoComputer.task] [] :=
    ⟨first.1, first.2.1, fun ran _ => EchoComputer.machine_runsOn 1 ran⟩
  have plain : ∀ planned ∈ [EchoComputer.task, EchoComputer.task],
      Shell.PlainArgv planned.command := by
    simpa using EchoComputer.plain
  refine (applied_in_parts (by rfl) planning' planning planning plain
    (by simp [EchoComputer.greet]) (.locally _ both) (.locally _ first)).2 ?_ _
    (.remotely _ _ _ ⟨rfl, rfl⟩ (EchoComputer.server_runsOn 0 _))
  exact first.means.ok.mpr (by
    rw [Guarded.Machine.Completes]
    decide)

/-- What is kept on the disk of a computer, and what `touch` and `mkdir` do to it. -/
structure Computer.OnDisk {σ : Type} (c : Computer σ) (ν : Type) where
  disk : σ → Disk ν
  which : String → Bool
  view_eq : ∀ s, c.view s = (disk s).fileSystem which
  /-- The paths of the files that `touch` can create. It takes others for options, or lacks
  the permission. -/
  creates : String → Prop
  endsInName : ∀ path, creates path → EndsInName path.toList
  touch_extends : ∀ path s t, c.exec ["touch", path] s = some t →
    (disk s).Extends (disk t).toFileTree
  touch_creates : ∀ path s t, c.exec ["touch", path] s = some t → creates path →
    (disk s).ContainerExists path.toList → ((disk t).resolve path.toList).isSome
  /-- Where there is something, `touch` changes its times at most. -/
  touch_idle : ∀ path s t, c.exec ["touch", path] s = some t →
    (creates path → ((disk s).resolve path.toList).isSome) → disk t = disk s
  mkdir_idle : ∀ path s t, c.exec ["mkdir", path] s = some t →
    (disk s).DirExists path.toList → disk t = disk s

namespace Computer.OnDisk

variable {σ ν : Type} {c : Computer σ} (o : c.OnDisk ν)

/-- What the task is for is there. -/
def Settled (d : Disk ν) : Task → Prop
  | .command _ _ _ => True
  | .createDirectory _ path _ => d.DirExists path.toList
  | .touchFile _ path _ => o.creates path → (d.resolve path.toList).isSome

/-- The task is not a command that changes the disk. -/
def Repeatable (split : ShellSplit) : Task → Prop
  | .command _ line _ => ∀ words s t, split line = .ok words → c.exec words s = some t →
      o.disk t = o.disk s
  | _ => True

variable {o} {split : ShellSplit} {task : Task} {planned : PlannedTask} {s t : σ}

theorem Settled.mono {d d' : Disk ν} (h : o.Settled d task) (extends' : d.Extends d'.toFileTree) :
    o.Settled d' task := by
  cases task with
  | command name line hosts => trivial
  | createDirectory name path hosts => exact extends'.dirExists h
  | touchFile name path hosts =>
      intro creates
      obtain ⟨n, found⟩ := Option.isSome_iff_exists.mp (h creates)
      rw [extends'.resolve found, Option.isSome_some]

theorem holds_directoryExists {path : String} :
    c.locally.holds (.directoryExists path) s ↔ (o.disk s).DirExists path.toList := by
  rw [← Disk.kind_fileSystem _ o.which, ← o.view_eq]
  exact beq_iff_eq

theorem holds_exeExists {exe : String} : c.locally.holds (.exeExists exe) s = o.which exe := by
  change (c.view s).which exe = _
  rw [o.view_eq]
  rfl

end Computer.OnDisk

section Steps

variable {σ ν : Type} {c : Computer σ} {o : c.OnDisk ν} {split : ShellSplit}
variable {task : Task} {planned : PlannedTask} {s t : σ}

theorem Computer.locally_take : c.locally.take planned.step s = some t ↔
    planned.ensures.all (c.locally.holds · s) ∧ c.exec planned.command s = some t := by
  change (if planned.ensures.all (c.locally.holds · s) then _ else none) = some t ↔ _
  split
  · rw [and_iff_right ‹_›]
    rfl
  · simp [*]

/-- Ensures of the planner are not lost when the disk is extended. -/
theorem PlannedTask.Made.ensures_mono (made : PlannedTask.Made split task planned)
    (pass : planned.ensures.all (c.locally.holds · s))
    (extends' : (o.disk s).Extends (o.disk t).toFileTree) :
    planned.ensures.all (c.locally.holds · t) := by
  have exe : ∀ exe, c.locally.holds (.exeExists exe) s → c.locally.holds (.exeExists exe) t :=
    fun exe found => by rwa [o.holds_exeExists] at found ⊢
  have dir : ∀ path, c.locally.holds (.directoryExists path) s →
      c.locally.holds (.directoryExists path) t := fun path there => by
    rw [o.holds_directoryExists] at there ⊢
    exact extends'.dirExists there
  cases made with
  | command _ => simpa using exe _ (by simpa using pass)
  | createDirectory => simpa using dir _ (by simpa using pass)
  | touchFile _ =>
      simp only [List.all_cons, List.all_nil, Bool.and_true, Bool.and_eq_true] at pass ⊢
      exact pass.imp (exe _) (dir _)

/-- A step only adds to the disk. -/
theorem PlannedTask.Made.extends (made : PlannedTask.Made split task planned)
    (repeatable : o.Repeatable split task) (taken : c.locally.take planned.step s = some t) :
    (o.disk s).Extends (o.disk t).toFileTree := by
  obtain ⟨pass, ran⟩ := Computer.locally_take.mp taken
  cases made with
  | command words => rw [repeatable _ _ _ words ran]; exact .refl _
  | createDirectory =>
      have there := o.holds_directoryExists.mp (by simpa using pass)
      rw [o.mkdir_idle _ _ _ ran there]
      exact .refl _
  | touchFile _ => exact o.touch_extends _ _ _ ran

/-- When a step has been taken, what its task is for is there. -/
theorem PlannedTask.Made.settles (made : PlannedTask.Made split task planned)
    (repeatable : o.Repeatable split task) (taken : c.locally.take planned.step s = some t) :
    o.Settled (o.disk t) task := by
  have pass := (Computer.locally_take.mp taken).1
  cases made with
  | command _ => trivial
  | createDirectory =>
      have there := o.holds_directoryExists.mp (by simpa using pass)
      rw [o.mkdir_idle _ _ _ (Computer.locally_take.mp taken).2 there]
      exact there
  | touchFile parent =>
      intro creates
      simp only [List.all_cons, List.all_nil, Bool.and_true, Bool.and_eq_true] at pass
      have room := (Path.dirExists_parent _ (o.endsInName _ creates) parent).mp
        (o.holds_directoryExists.mp pass.2)
      exact o.touch_creates _ _ _ (Computer.locally_take.mp taken).2 creates room.2

/-- When that is there, the step can be taken again and changes nothing. -/
theorem PlannedTask.Made.take_again (made : PlannedTask.Made split task planned)
    (plain : Shell.PlainArgv planned.command)
    (mkdir : ∀ name path hosts, task = .createDirectory name path hosts →
      ∀ s, (c.view s).which "mkdir")
    (repeatable : o.Repeatable split task)
    (pass : planned.ensures.all (c.locally.holds · s)) (settled : o.Settled (o.disk s) task) :
    ∃ t, c.locally.take planned.step s = some t ∧ o.disk t = o.disk s := by
  obtain ⟨t, ran⟩ := Option.isSome_iff_exists.mp (made.exec_isSome plain mkdir pass)
  refine ⟨t, Computer.locally_take.mpr ⟨pass, ran⟩, ?_⟩
  cases made with
  | command words => exact repeatable _ _ _ words ran
  | createDirectory => exact o.mkdir_idle _ _ _ ran settled
  | touchFile _ => exact o.touch_idle _ _ _ ran settled

end Steps

/-- One run has brought about what the tasks are for, and the other has come to the same and
has found nothing to do. -/
structure Repeats {σ ν : Type} {c : Computer σ} (o : c.OnDisk ν) (tasks : TaskSet) (s : σ)
    (run run' : EStateM.Result Abort Record Unit) : Prop where
  kept : (o.disk s).Extends (o.disk (c.left run s)).toFileTree
  settled : ∀ task ∈ tasks.tasks, o.Settled (o.disk (c.left run s)) task
  ok : outcome run' = .ok ⟨⟩
  commands : commands (finalState run').events = commands (finalState run).events
  unchanged : o.disk (c.left run' (c.left run s)) = o.disk (c.left run s)

section Again

variable {σ ν : Type} {c : Computer σ} {o : c.OnDisk ν} {split : ShellSplit} {tasks : TaskSet}
variable {plan : Plan} {s : σ} {run run' : EStateM.Result Abort Record Unit}

/-- The step may be taken, and what any task is for from which it has been made is there. -/
def Computer.OnDisk.StepSettled (o : c.OnDisk ν) (split : ShellSplit) (tasks : TaskSet)
    (p : Guarded.Step Ensure (List String)) (s : σ) : Prop :=
  p.guards.all (c.locally.holds · s) ∧ ∀ task ∈ tasks.tasks, ∀ planned,
    PlannedTask.Made split task planned → planned.step = p → o.Settled (o.disk s) task

/-- What is needed of a plan for `Guarded.Machine.apply_again`. -/
structure Computer.OnDisk.Lasting (o : c.OnDisk ν) (split : ShellSplit) (tasks : TaskSet)
    (plan : Plan) : Prop where
  settles : ∀ p ∈ plan.program, ∀ s t, c.locally.take p s = some t →
    o.StepSettled split tasks p t
  again : ∀ p ∈ plan.program, ∀ s, o.StepSettled split tasks p s →
    ∃ t, c.locally.take p s = some t ∧ o.disk t = o.disk s
  kept : ∀ p ∈ plan.program, ∀ q ∈ plan.program, ∀ s t, o.StepSettled split tasks p s →
    c.locally.take q s = some t → o.StepSettled split tasks p t
  extended : ∀ p ∈ plan.program, ∀ s t, c.locally.take p s = some t →
    (o.disk s).Extends (o.disk t).toFileTree

theorem TaskSet.lasting (planning : tasks.plan split = .ok plan)
    (plain : ∀ planned ∈ plan.blueprint, Shell.PlainArgv planned.command)
    (mkdir : ∀ name path hosts, .createDirectory name path hosts ∈ tasks.tasks →
      ∀ s, (c.view s).which "mkdir")
    (repeatable : ∀ task ∈ tasks.tasks, o.Repeatable split task) :
    o.Lasting split tasks plan := by
  have step : ∀ p ∈ plan.program, ∃ task ∈ tasks.tasks, ∃ planned ∈ plan.blueprint,
      PlannedTask.Made split task planned ∧ planned.step = p := by
    intro p member
    obtain ⟨planned, among, rfl⟩ := List.mem_map.mp member
    obtain ⟨task, listed, made⟩ := TaskSet.exists_made planning among
    exact ⟨task, listed, planned, among, made, rfl⟩
  have extended : ∀ p ∈ plan.program, ∀ s t, c.locally.take p s = some t →
      (o.disk s).Extends (o.disk t).toFileTree := by
    intro p member s t taken
    obtain ⟨task, listed, planned, -, made, rfl⟩ := step p member
    exact made.extends (repeatable task listed) taken
  have mono : ∀ p ∈ plan.program, ∀ s t, (o.disk s).Extends (o.disk t).toFileTree →
      p.guards.all (c.locally.holds · s) → p.guards.all (c.locally.holds · t) := by
    intro p member s t extends' pass
    obtain ⟨task, -, planned, -, made, rfl⟩ := step p member
    exact made.ensures_mono pass extends'
  refine ⟨?_, ?_, ?_, extended⟩
  · intro p member s t taken
    refine ⟨mono p member s t (extended p member s t taken) ?_, ?_⟩
    · obtain ⟨task, -, planned, -, -, rfl⟩ := step p member
      exact (Computer.locally_take.mp taken).1
    · rintro task listed planned made rfl
      exact made.settles (repeatable task listed) taken
  · rintro p member s ⟨pass, settled⟩
    obtain ⟨task, listed, planned, among, made, rfl⟩ := step p member
    exact made.take_again (plain planned among)
      (fun name path hosts eq => mkdir name path hosts (eq ▸ listed)) (repeatable task listed) pass
      (settled task listed planned made rfl)
  · rintro p member q member' s t ⟨pass, settled⟩ taken
    have extends' := extended q member' s t taken
    exact ⟨mono p member s t extends' pass, fun task listed planned made eq =>
      (settled task listed planned made eq).mono extends'⟩

/-- A plan of tasks that touch files and create directories, applied without an error, has
brought about what the tasks are for. It can be applied again by either executor: nothing
fails, and nothing changes on the disk. -/
theorem applied_again (o : c.OnDisk ν) (planning : tasks.plan split = .ok plan)
    (plain : ∀ planned ∈ plan.blueprint, Shell.PlainArgv planned.command)
    (mkdir : ∀ name path hosts, .createDirectory name path hosts ∈ tasks.tasks →
      ∀ s, (c.view s).which "mkdir")
    (repeatable : ∀ task ∈ tasks.tasks, o.Repeatable split task)
    (applied : Applies c plan s run) (ok : outcome run = .ok ⟨⟩)
    (again : Applies c plan (c.left run s) run') : Repeats o tasks s run run' := by
  have lasting := TaskSet.lasting (o := o) planning plain mkdir repeatable
  have one := applied.means planning plain mkdir
  have two := again.means planning plain mkdir
  have completes := one.ok.mp ok
  have left : c.left run s = (c.locally.apply plan.program s).2 := one.state
  rw [left] at two
  obtain ⟨completes', unchanged⟩ := Guarded.Machine.apply_again lasting.settles lasting.again
    lasting.kept completes
  refine ⟨?_, ?_, two.ok.mpr completes', ?_, ?_⟩
  · rw [left]
    exact Guarded.Machine.apply_invariant (I := fun t => (o.disk s).Extends (o.disk t).toFileTree)
      (fun p member s t h taken => h.trans (lasting.extended p member s t taken)) (.refl _)
  · intro task listed
    rw [left]
    have mapped : task.planned split ∈ plan.blueprint.map Except.ok := by
      rw [(TaskSet.plan_blueprint planning).2]
      exact List.mem_map_of_mem listed
    obtain ⟨planned, among, made⟩ := List.mem_map.mp mapped
    exact (Guarded.Machine.apply_settles lasting.settles lasting.kept completes planned.step
      (List.mem_map_of_mem among)).2 task listed planned (Task.made made.symm) rfl
  · rw [one.commands, two.commands, completes, completes']
  · rw [left, Computer.left, two.state]
    exact unchanged

end Again

namespace LogComputer

/-- A computer that has `touch` and nothing else. Its state is whether a file `log` is in the
directory `data`, the only directory in which files can be created. -/
inductive Node where
  | root | data | log
  deriving DecidableEq

def disk (created : Bool) : Disk Node where
  root := .root
  cwd := .root
  isDir n := n != .log
  entry
    | .root, name => if name = "data".toList then some .data else none
    | .data, name => if created = true ∧ name = "log".toList then some .log else none
    | .log, _ => none
  root_isDir := rfl
  cwd_isDir := rfl
  kind n := if n = .log then .file else .dir
  isDir_iff n := by cases n <;> decide

def exec : List String → Bool → Option Bool
  | [], _ => none
  | exe :: args, created =>
      if exe == "touch" ∧ ∀ word ∈ exe :: args, '\x00' ∉ word.toList then
        some (created || args == ["/data/log"])
      else
        none

def computer : Computer Bool where
  view created := (disk created).fileSystem (· == "touch")
  exec := exec
  shell line created := ((Shell.simpleCommand line).bind (exec · created)).getD created
  exec_nil _ := rfl
  exec_isSome exe args created := by
    rw [exec]
    split
    · exact iff_of_true rfl ‹_›
    · exact iff_of_false Bool.false_ne_true ‹_›
  shell_eq line words created read := by rw [read, Option.bind_some]

theorem eq_of_touch {path : String} {s t : Bool}
    (ran : computer.exec ["touch", path] s = some t) : t = (s || path == "/data/log") := by
  change (if _ then _ else none) = some t at ran
  split at ran
  · have same : ([path] == ["/data/log"]) = (path == "/data/log") := by simp
    rw [← Option.some.inj ran, same]
  · cases ran

theorem extends_created (s b : Bool) : (disk s).Extends (disk (s || b)).toFileTree := by
  refine ⟨rfl, rfl, fun _ dir => dir, fun n segment m found => ?_⟩
  cases s with
  | true => exact found
  | false => cases n <;> simp_all [disk]

def onDisk : computer.OnDisk Node where
  disk := disk
  which exe := exe == "touch"
  view_eq _ := rfl
  creates path := path = "/data/log"
  endsInName := by
    rintro path rfl
    decide
  touch_extends path s t ran := by
    rw [eq_of_touch ran]
    exact extends_created s _
  touch_creates := by
    rintro path s t ran rfl -
    rw [eq_of_touch ran, beq_self_eq_true, Bool.or_true]
    decide
  touch_idle path s t ran idle := by
    obtain rfl := eq_of_touch ran
    by_cases log : path = "/data/log"
    · cases s with
      | true => rfl
      | false =>
          subst log
          exact absurd (idle rfl) (by decide)
    · rw [beq_eq_false_iff_ne.mpr log, Bool.or_false]
  mkdir_idle path s t ran _ := by
    have found := ((computer.exec_isSome "mkdir" [path] s).mp (by rw [ran, Option.isSome_some])).1
    exact absurd (show ("mkdir" == "touch") = true from found) (by decide)

def tasks : TaskSet := LogFile.tasks "/data/log"

def plan : Plan := LogFile.plan "/data/log" "/data"

def machine : LocalHost where
  task _ := LogFile.machine (.ok .dir)

def server : SshHost where
  connect := .ok ⟨⟩
  authenticate := .ok true
  task _ := LogFile.server 0

theorem plan_tasks (split : ShellSplit) : tasks.plan split = .ok plan :=
  LogFile.plan_tasks split (by decide)

theorem plain : ∀ planned ∈ plan.blueprint, Shell.PlainArgv planned.command := by
  rw [plan, LogFile.plan, List.forall_mem_singleton]
  decide

theorem machine_runsOn (s : Bool) : machine.RunsOn computer 0 plan.blueprint s := by
  refine ⟨fun i ensure listed => ?_, by cases s <;> decide, fun _ _ => trivial⟩
  match i, listed with
  | 0, listed =>
      obtain rfl := Option.some.inj listed
      have kind : (computer.view s).kind "touch" = none := by cases s <;> decide
      exact ⟨kind.symm, kind.symm, rfl⟩
  | 1, listed =>
      obtain rfl := Option.some.inj listed
      have kind : (computer.view s).kind "/data" = some .dir := by cases s <;> decide
      exact ⟨kind.symm, kind.symm, rfl⟩
  | i + 2, listed => cases listed

theorem server_runsOn (s : Bool) : server.RunsOn computer 0 plan.blueprint s := by
  have checkable : ∀ task ∈ plan.blueprint, task.Checkable :=
    TaskSet.checkable (plan_tasks fun _ => .ok []) plain
  have answers : ∀ ensure ∈ LogFile.ensures "/data", ∀ status fs',
      (computer.view s).runLine ensure.checkLine = some (status, fs') →
        ChannelRun.Answers ⟨.ok ⟨⟩, .ok ⟨⟩, [.exitStatus 0, .close]⟩ status := by
    intro ensure listed status fs' ran
    have run : (computer.view s).run ensure.words = some (0, computer.view s) := by
      rcases List.mem_cons.mp listed with rfl | listed
      · rfl
      · obtain rfl := List.mem_singleton.mp listed
        have kind : (computer.view s).kind "/data" = some .dir := by cases s <;> decide
        change some (FileSystem.statusOf ((computer.view s).kind "/data" == some .dir), _) = _
        rw [kind]
        rfl
    rw [FileSystem.runLine, checkable _ List.mem_cons_self ensure listed, Option.bind_some,
      run] at ran
    cases ran
    exact ⟨⟨rfl, rfl⟩, by simp [Decodes, ChannelMsg.ends], rfl⟩
  have check : ∀ i, (LogFile.server 0).check i = ⟨.ok ⟨⟩, .ok ⟨⟩, [.exitStatus 0, .close]⟩ := by
    intro i
    cases i <;> rfl
  refine ⟨fun i ensure listed => ?_, ⟨rfl, rfl⟩, ?_, fun _ _ => trivial⟩
  · change ∀ status fs', _ → ((LogFile.server 0).check i).Answers status
    rw [check]
    exact answers ensure (List.mem_of_getElem? listed)
  · simp [server, LogFile.server, Decodes, ChannelMsg.ends]

end LogComputer

/-- The file is created by the local executor, and the SSH executor finds it there. -/
theorem applied_again_log :
    Repeats LogComputer.onDisk LogComputer.tasks false
      (SimpleExecutor.execute LogComputer.plan LogComputer.machine (.fresh none))
      (SshExecutor.execute { host := "localhost", executor := "ssh" } "web" LogComputer.plan
        LogComputer.server (.fresh none)) := by
  have noDirectory : ∀ name path hosts,
      Task.createDirectory name path hosts ∉ LogComputer.tasks.tasks := by
    simp [LogComputer.tasks, LogFile.tasks]
  have repeatable : ∀ task ∈ LogComputer.tasks.tasks,
      LogComputer.onDisk.Repeatable (fun _ => .ok []) task := by
    intro task listed
    obtain rfl := List.mem_singleton.mp listed
    trivial
  refine applied_again LogComputer.onDisk (LogComputer.plan_tasks fun _ => .ok [])
    LogComputer.plain (fun name path hosts listed => absurd listed (noDirectory name path hosts))
    repeatable (.locally _ (LogComputer.machine_runsOn false)) ?_
    (.remotely _ _ _ ⟨rfl, rfl⟩ (LogComputer.server_runsOn _))
  exact (LogComputer.machine_runsOn false).means.ok.mpr (by
    rw [Guarded.Machine.Completes]
    decide)

end There
