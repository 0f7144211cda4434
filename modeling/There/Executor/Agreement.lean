import There.Executor.Meaning
import There.Plan.Translation
import There.Posix.Path

/-!
# The two executors agree on planned tasks

A plan that has been made from tasks means the same for both executors, if its words are
plain to the shell: of the ensures on which the executors differ the planner makes none, and
what the ensures of a command ask for is what it takes to start it. Only the planned task of
a directory does not ask for `mkdir`, which has to be there.
-/

namespace There

open Effect Posix

/-- Words that are plain to a shell need no protection by double quotes. -/
theorem inert_of_plain {w : List Char} (plain : ∀ c ∈ w, Shell.Dialect.sh.Ordinary c) :
    Shell.inert w := by
  induction w with
  | nil => rfl
  | cons c w ih =>
      obtain ⟨⟨-, active, -, quote, backslash⟩, rest⟩ := List.forall_mem_cons.mp plain
      refine Shell.inert_cons.mpr
        ⟨⟨quote, ?_, ?_⟩, fun slash => absurd slash backslash, ih rest⟩
      all_goals
        rintro rfl
        exact absurd active (by decide)

namespace Path

theorem mem_join_dropLast {segs : List (List Char)} {c : Char}
    (mem : c ∈ join (trimRight (trimRight segs).dropLast)) :
    c = '/' ∨ ∃ segment ∈ segs, c ∈ segment :=
  (mem_intercalate mem).imp_right fun ⟨segment, kept, inside⟩ =>
    ⟨segment, (List.rdropWhile_prefix _ _).sublist.subset
      ((List.dropLast_sublist _).subset ((List.rdropWhile_prefix _ _).sublist.subset kept)), inside⟩

/-- The parent of any path is made of slashes and of characters of the path. -/
theorem mem_of_mem_parent {path directory : String} (h : parent path = some directory) {c : Char}
    (mem : c ∈ directory.toList) : c = '/' ∨ c ∈ path.toList := by
  have within : ∀ segs : List (List Char), (∀ segment ∈ segs, segment ∈ segments path.toList) →
      c ∈ join (trimRight (trimRight segs).dropLast) → c = '/' ∨ c ∈ path.toList := by
    intro segs among inside
    exact (mem_join_dropLast inside).imp_right fun ⟨segment, listed, inside⟩ =>
      mem_of_mem_segments (among segment listed) inside
  rw [parent] at h
  split at h
  · cases h
  · rename_i rest split
    have among : ∀ segment ∈ rest, segment ∈ segments path.toList := fun segment listed => by
      rw [segments, split]
      exact List.mem_cons_of_mem _ listed
    split at h
    · cases h
    · obtain rfl := Option.some.inj h
      rw [String.toList_ofList] at mem
      rcases List.mem_cons.mp mem with rfl | mem
      · exact .inl rfl
      · exact within rest among mem
  · rename_i rest split
    have among : ∀ segment ∈ ['.'] :: rest, segment ∈ segments path.toList := by
      rw [segments, split]
      exact fun _ listed => listed
    split at h
    · obtain rfl := Option.some.inj h
      cases mem
    · obtain rfl := Option.some.inj h
      rw [String.toList_ofList] at mem
      rcases mem_intercalate mem with slash | ⟨segment, kept, inside⟩
      · exact .inl slash
      · refine .inr (mem_of_mem_segments (among segment ?_) inside)
        rcases List.mem_cons.mp kept with rfl | kept
        · exact List.mem_cons_self
        · exact List.mem_cons_of_mem _ ((List.rdropWhile_prefix _ _).sublist.subset
            ((List.dropLast_sublist _).subset ((List.rdropWhile_prefix _ _).sublist.subset kept)))
  · split at h
    · cases h
    · obtain rfl := Option.some.inj h
      rw [String.toList_ofList] at mem
      exact within _ (fun _ listed => listed) mem

end Path

/-- What the planner makes of a task. -/
inductive PlannedTask.Made (split : ShellSplit) : Task → PlannedTask → Prop where
  | command {name line head : String} {rest hosts : List String} :
      split line = .ok (head :: rest) →
      Made split (.command name line hosts) ⟨name, head :: rest, [.exeExists head], hosts⟩
  | createDirectory {name path : String} {hosts : List String} :
      Made split (.createDirectory name path hosts)
        ⟨name, ["mkdir", path], [.directoryExists path], hosts⟩
  | touchFile {name path directory : String} {hosts : List String} :
      Path.parent path = some directory →
      Made split (.touchFile name path hosts)
        ⟨name, ["touch", path], [.exeExists "touch", .directoryExists directory], hosts⟩

section Planned

variable {split : ShellSplit} {tasks : TaskSet} {plan : Plan} {task : Task} {planned : PlannedTask}

theorem Task.made (h : task.planned split = .ok planned) : PlannedTask.Made split task planned := by
  cases task with
  | command name line hosts =>
      obtain ⟨head, rest, words, rfl⟩ := PlannedTask.fromShellCommand_eq_ok h
      exact .command words
  | createDirectory name path hosts =>
      obtain rfl := Except.ok.inj h
      exact .createDirectory
  | touchFile name path hosts =>
      rw [Task.planned] at h
      cases parent : Path.parent path with
      | none => simp [parent] at h
      | some directory =>
          rw [parent] at h
          obtain rfl := Except.ok.inj h
          exact .touchFile parent

/-- Every planned task has been made from a task. -/
theorem TaskSet.exists_made (planning : tasks.plan split = .ok plan)
    (member : planned ∈ plan.blueprint) :
    ∃ task ∈ tasks.tasks, PlannedTask.Made split task planned := by
  have mapped : Except.ok planned ∈ tasks.tasks.map (Task.planned split) := by
    rw [← (TaskSet.plan_blueprint planning).2]
    exact List.mem_map_of_mem member
  obtain ⟨task, listed, made⟩ := List.mem_map.mp mapped
  exact ⟨task, listed, Task.made made⟩

/-- A planned task whose command survives the way to the shell has checks that do. -/
theorem PlannedTask.Made.checkable (made : PlannedTask.Made split task planned)
    (plain : Shell.PlainArgv planned.command) : planned.Checkable := by
  have word : ∀ w ∈ planned.command, Shell.inert w.toList ∧ '\x00' ∉ w.toList :=
    fun w listed => ⟨inert_of_plain (plain.plain w listed).ordinary, plain.no_null w listed⟩
  intro ensure listed
  refine (checkLine_iff ensure).mpr ?_
  cases made with
  | command _ =>
      obtain rfl := List.mem_singleton.mp listed
      exact word _ List.mem_cons_self
  | createDirectory =>
      obtain rfl := List.mem_singleton.mp listed
      exact word _ (List.mem_cons_of_mem _ List.mem_cons_self)
  | @touchFile _ path directory _ parent =>
      rcases List.mem_cons.mp listed with rfl | listed
      · exact word _ List.mem_cons_self
      · obtain rfl := List.mem_singleton.mp listed
        have listed : path ∈ ["touch", path] := List.mem_cons_of_mem _ List.mem_cons_self
        have ordinary := (plain.plain path listed).ordinary
        constructor
        · refine inert_of_plain fun c mem => ?_
          rcases Path.mem_of_mem_parent parent mem with rfl | mem
          · decide
          · exact ordinary c mem
        · intro null
          rcases Path.mem_of_mem_parent parent null with slash | mem
          · exact absurd slash (by decide)
          · exact plain.no_null path listed mem

end Planned

/-- The two runs come to the same on a computer that was in the state `s`. -/
structure Alike {σ : Type} (c : Computer σ) (s : σ)
    (here there : EStateM.Result Abort Record Unit) : Prop where
  ok : outcome here = .ok ⟨⟩ ↔ outcome there = .ok ⟨⟩
  tasksCompleted : (finalState here).tasksCompleted = (finalState there).tasksCompleted
  commands : commands (finalState here).events = commands (finalState there).events
  state : c.locally.after (There.commands (finalState here).events) s =
    c.remotely.after (There.commands (finalState there).events) s

section Agreement

variable {σ : Type} {c : Computer σ} {split : ShellSplit} {tasks : TaskSet} {plan : Plan}
variable {task : Task} {planned : PlannedTask}

/-- The ensures of a planned task ask for what it takes to start its command. -/
theorem PlannedTask.Made.exec_isSome (made : PlannedTask.Made split task planned)
    (plain : Shell.PlainArgv planned.command)
    (mkdir : ∀ name path hosts, task = .createDirectory name path hosts →
      ∀ s, (c.view s).which "mkdir") {s : σ}
    (pass : planned.ensures.all (c.locally.holds · s)) : (c.exec planned.command s).isSome := by
  have isSome : ∀ {exe : String} {args : List String}, planned.command = exe :: args →
      (c.view s).which exe → (c.exec planned.command s).isSome := by
    intro exe args command found
    rw [command]
    exact (c.exec_isSome exe args s).mpr ⟨found, command ▸ plain.no_null⟩
  rw [List.all_eq_true] at pass
  cases made with
  | command _ => exact isSome rfl (pass _ List.mem_cons_self)
  | createDirectory => exact isSome rfl (mkdir _ _ _ rfl s)
  | touchFile _ => exact isSome rfl (pass _ List.mem_cons_self)

/-- A planned task is taken by both executors or by none, and does the same. -/
theorem PlannedTask.Made.take_eq (made : PlannedTask.Made split task planned)
    (plain : Shell.PlainArgv planned.command)
    (mkdir : ∀ name path hosts, task = .createDirectory name path hosts →
      ∀ s, (c.view s).which "mkdir") (s : σ) :
    c.locally.take planned.step s = c.remotely.take planned.step s := by
  have sent : c.remotely.start planned.command s =
      some ((c.exec planned.command s).getD s) :=
    congrArg some (c.shell_eq _ _ s (Shell.simpleCommand_intercalate.mpr plain))
  -- A command that is found is started, and it does not matter by whom.
  have starts : (c.exec planned.command s).isSome →
      c.locally.start planned.command s = c.remotely.start planned.command s := by
    intro found
    obtain ⟨t, started⟩ := Option.isSome_iff_exists.mp found
    rw [sent, started]
    exact started
  have same : ∀ ensure ∈ planned.ensures, c.locally.holds ensure s = c.remotely.holds ensure s := by
    cases made <;> simp [Computer.locally, Computer.remotely, FileSystem.passesLocally,
      FileSystem.passesRemotely]
  have guards : planned.ensures.all (c.locally.holds · s) =
      planned.ensures.all (c.remotely.holds · s) := by
    rw [Bool.eq_iff_iff, List.all_eq_true, List.all_eq_true]
    exact forall₂_congr fun ensure listed => by rw [same ensure listed]
  change (if planned.ensures.all (c.locally.holds · s) then _ else none) =
    if planned.ensures.all (c.remotely.holds · s) then _ else none
  rw [← guards]
  split
  · exact starts (made.exec_isSome plain mkdir ‹_›)
  · rfl

theorem TaskSet.checkable (planning : tasks.plan split = .ok plan)
    (plain : ∀ planned ∈ plan.blueprint, Shell.PlainArgv planned.command) :
    ∀ planned ∈ plan.blueprint, planned.Checkable := by
  intro planned member
  obtain ⟨task, -, made⟩ := TaskSet.exists_made planning member
  exact made.checkable (plain planned member)

/-- A plan that is made from tasks means the same for both executors. -/
theorem TaskSet.apply_eq (planning : tasks.plan split = .ok plan)
    (plain : ∀ planned ∈ plan.blueprint, Shell.PlainArgv planned.command)
    (mkdir : ∀ name path hosts, .createDirectory name path hosts ∈ tasks.tasks →
      ∀ s, (c.view s).which "mkdir") (s : σ) :
    c.locally.apply plan.program s = c.remotely.apply plan.program s := by
  refine Guarded.Machine.apply_congr (fun p member s => ?_) s
  obtain ⟨planned, among, rfl⟩ := List.mem_map.mp member
  obtain ⟨task, listed, made⟩ := TaskSet.exists_made planning among
  exact made.take_eq (plain planned among)
    (fun name path hosts eq => mkdir name path hosts (eq ▸ listed)) s

/-- The executors agree on every plan that is made from tasks and survives the way to the
shell, run from the same state of the same computer, which has `mkdir` if it is needed. -/
theorem executors_agree (c : Computer σ) (planning : tasks.plan split = .ok plan)
    (plain : ∀ planned ∈ plan.blueprint, Shell.PlainArgv planned.command)
    (mkdir : ∀ name path hosts, .createDirectory name path hosts ∈ tasks.tasks →
      ∀ s, (c.view s).which "mkdir") (s : σ)
    (machine : LocalHost) (here : machine.RunsOn c 0 plan.blueprint s)
    (host : Host) (hostname : String) (server : SshHost) (connected : server.Connected)
    (there : server.RunsOn c 0 plan.blueprint s) :
    Alike c s (SimpleExecutor.execute plan machine (.fresh none))
      (SshExecutor.execute host hostname plan server (.fresh none)) := by
  have same := TaskSet.apply_eq planning plain mkdir s
  have locally := here.means
  have remotely := there.means host hostname connected (TaskSet.checkable planning plain)
  refine ⟨?_, ?_, ?_, ?_⟩
  · rw [locally.ok, remotely.ok, Guarded.Machine.Completes, Guarded.Machine.Completes, same]
  · rw [locally.tasksCompleted, remotely.tasksCompleted, same]
  · rw [locally.commands, remotely.commands, same]
  · rw [locally.state, remotely.state, same]

end Agreement

namespace EchoComputer

/-- `shell_words::split`, for the only line there is. -/
def split : ShellSplit := fun _ => .ok ["echo", "hi"]

def greet : Task := .command "greet" "echo hi" ["web"]

theorem plain : Shell.PlainArgv task.command := by decide

end EchoComputer

theorem executors_agree_echo :
    Alike EchoComputer.computer []
      (SimpleExecutor.execute EchoComputer.plan EchoComputer.machine (.fresh none))
      (SshExecutor.execute { host := "localhost", executor := "ssh" } "web" EchoComputer.plan
        EchoComputer.server (.fresh none)) := by
  have planning : TaskSet.plan EchoComputer.split ⟨"greeting", [EchoComputer.greet]⟩ =
      .ok EchoComputer.plan := rfl
  exact executors_agree EchoComputer.computer planning
    (List.forall_mem_singleton.mpr EchoComputer.plain) (by simp [EchoComputer.greet]) []
    EchoComputer.machine (EchoComputer.machine_runsOn 0 []) _ _ EchoComputer.server ⟨rfl, rfl⟩
    (EchoComputer.server_runsOn 0 [])

end There
