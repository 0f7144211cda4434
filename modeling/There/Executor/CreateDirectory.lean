import There.Executor.FileSystem

/-!
# Tasks that create a directory

A planned task is of use if its ensures let it run where its command can succeed, and
only there. The planner asks for the directory that the task is to create, so the task
is stopped wherever `mkdir` would succeed and let through where it fails.
-/

namespace There

/-- The task does its job on this file system: it creates the directory where that is
possible, and its command succeeds wherever its ensures pass. -/
structure CreatesDirectory (fs : FileSystem) (path : String) (ensured : Prop)
    (ran : Option (Nat × FileSystem)) : Prop where
  useful : fs.kind path = none → fs.container path →
    ensured ∧ ∃ status fs', ran = some (status, fs') ∧ fs'.kind path = some .dir
  safe : ensured → ∃ fs', ran = some (0, fs')

/-- There is nothing to be done for the path: something else stands there, or there is
nowhere to create it. -/
def FileSystem.Hopeless (fs : FileSystem) (path : String) : Prop :=
  (fs.kind path ≠ none ∧ fs.kind path ≠ some .dir) ∨
    (fs.kind path = none ∧ fs.container path = false)

section General

variable {fs : FileSystem} {path : String} {ensured : Prop} {ran : Option (Nat × FileSystem)}

theorem FileSystem.mkdir_of_exists (found : fs.kind path ≠ none) : fs.mkdir path = (1, fs) := by
  rw [mkdir, dif_neg fun creates => found creates.1]

/-- A task that runs where its directory exists, and only there, is of use nowhere. -/
theorem createsDirectory_iff (passes : ensured ↔ fs.kind path = some .dir)
    (runs : path ≠ "" → ran = some (fs.mkdir path)) :
    CreatesDirectory fs path ensured ran ↔ fs.Hopeless path := by
  constructor
  · intro creates
    cases found : fs.kind path with
    | none =>
        refine .inr ⟨found, Bool.eq_false_iff.mpr fun room => ?_⟩
        have passed := passes.mp (creates.useful found room).1
        rw [found] at passed
        cases passed
    | some kind =>
        refine .inl ⟨by simp [found], fun isDir => ?_⟩
        have present : fs.kind path ≠ none := by simp [found]
        have ne : path ≠ "" := by
          rintro rfl
          exact present fs.empty.1
        obtain ⟨fs', succeeds⟩ := creates.safe (passes.mpr isDir)
        rw [runs ne, FileSystem.mkdir_of_exists present] at succeeds
        cases succeeds
  · rintro (⟨present, other⟩ | ⟨absent, noRoom⟩)
    · exact ⟨fun absent => absurd absent present, fun passed => absurd (passes.mp passed) other⟩
    · refine ⟨fun _ room => by simp [noRoom] at room, fun passed => ?_⟩
      have isDir := passes.mp passed
      rw [absent] at isDir
      cases isDir

end General

/-- An executor that returns the failures of the one ensure of the task returns none
where the directory exists. -/
theorem returns_nil {fs : FileSystem} {path : String} {passes : Ensure → Bool}
    {returned : Except Abort (List Ensure)}
    (returns : returned = .ok ([.directoryExists path].filter fun ensure => !passes ensure))
    (same : passes (.directoryExists path) = (fs.kind path == some .dir)) :
    returned = .ok [] ↔ fs.kind path = some .dir := by
  subst returns
  rw [List.filter_singleton, same]
  cases found : fs.kind path == some .dir <;> simpa using found

/-- The command line of the task is read as `mkdir` with the path. -/
theorem runLine_mkdir (fs : FileSystem) (name : String) {path : String} (ensures : List Ensure)
    (hosts : List String) (unspecial : Shell.Unspecial path)
    (noOption : path.toList.head? ≠ some '-') (ne : path ≠ "") :
    fs.runLine (Request.command ⟨name, ["mkdir", path], ensures, hosts⟩).line =
      some (fs.mkdir path) := by
  have mkdir : Shell.PlainArgv ["mkdir"] := by decide
  have plain : Shell.PlainArgv ["mkdir", path] := mkdir.append unspecial ne
  change (Shell.simpleCommand (" ".intercalate ["mkdir", path])).bind fs.run = _
  rw [Shell.simpleCommand_intercalate.mpr plain, Option.bind_some]
  exact if_neg noOption

/-- The planned task of a directory does its job, run by either executor, exactly where
there is nothing to be done. -/
theorem createDirectory_iff (split : ShellSplit) (tasks : TaskSet) (plan : Plan) (k : Nat)
    (name path : String) (hosts : List String) (planned : PlannedTask)
    (planning : tasks.plan split = .ok plan)
    (listed : tasks.tasks[k]? = some (.createDirectory name path hosts))
    (listed' : plan.blueprint[k]? = some planned) (fs : FileSystem) (machine : LocalTask)
    (server : SshTask) (s s' : Record) (kept : s.receiver = none) (kept' : s'.receiver = none)
    (unspecial : Shell.Unspecial path) (noOption : path.toList.head? ≠ some '-')
    (locally : machine.Shows fs planned.ensures) (remotely : server.Shows fs planned.ensures) :
    CreatesDirectory fs path
        (Effect.outcome (SimpleExecutor.ensureTask machine.probe 0 planned.ensures s) = .ok [])
        (fs.run planned.command) ∧
      CreatesDirectory fs path
        (Effect.outcome (SshExecutor.ensureTask server.check 0 planned.ensures s') = .ok [])
        (fs.runLine (Request.command planned).line) ↔
    fs.Hopeless path := by
  obtain rfl : planned = ⟨name, ["mkdir", path], [.directoryExists path], hosts⟩ := by
    have same := congrArg (·[k]?) (TaskSet.plan_blueprint planning).2
    simp only [List.getElem?_map, listed, listed', Option.map_some, Task.planned] at same
    simpa using same
  obtain ⟨-, _, -, -, onMachine⟩ := SimpleExecutor.ensureTask_returns fs (i := 0)
    (by simpa [LocalTask.Shows] using locally) s kept
  have plain : ∀ ensure ∈ [Ensure.directoryExists path], Shell.Unspecial ensure.argument := by
    simpa [Ensure.argument] using unspecial
  obtain ⟨-, _, -, -, onServer⟩ := SshExecutor.ensureTask_returns fs (i := 0) plain
    (by simpa [SshTask.Shows] using remotely) s' kept'
  have runs : fs.run ["mkdir", path] = some (fs.mkdir path) := if_neg noOption
  have here := createsDirectory_iff (returns_nil onMachine rfl) fun _ => runs
  have there := createsDirectory_iff (returns_nil onServer rfl) (runLine_mkdir fs name
    [.directoryExists path] hosts unspecial noOption)
  exact ⟨fun both => here.mp both.1, fun hopeless => ⟨here.mpr hopeless, there.mpr hopeless⟩⟩

namespace DataDirectory

/-- A task set of one task, to create a directory. -/
def tasks (path : String) : TaskSet := ⟨"setup", [.createDirectory "data" path ["web"]]⟩

def plan (path : String) : Plan :=
  ⟨"setup", [⟨"data", ["mkdir", path], [.directoryExists path], ["web"]⟩]⟩

theorem plan_tasks (split : ShellSplit) (path : String) :
    (tasks path).plan split = .ok (plan path) :=
  rfl

end DataDirectory

theorem createDirectory_file :
    CreatesDirectory DataDirectory.fs "/data/log"
        (Effect.outcome (SimpleExecutor.ensureTask (DataDirectory.machine (.ok .file)).probe 0
          [.directoryExists "/data/log"] (.fresh none)) = .ok [])
        (DataDirectory.fs.run ["mkdir", "/data/log"]) ∧
      CreatesDirectory DataDirectory.fs "/data/log"
        (Effect.outcome (SshExecutor.ensureTask (DataDirectory.server 1).check 0
          [.directoryExists "/data/log"] (.fresh none)) = .ok [])
        (DataDirectory.fs.runLine "mkdir /data/log") :=
  (createDirectory_iff (fun _ => .ok []) _ _ 0 "data" "/data/log" ["web"] _
    (DataDirectory.plan_tasks _ _) rfl rfl DataDirectory.fs _ _ _ _ rfl rfl (by decide) (by decide)
    (DataDirectory.machine_shows rfl rfl) (DataDirectory.server_shows (by decide) rfl)).mpr
    (.inl (by decide))

/-- Nothing stands at a path that has a directory to be created in. The ensure of the
planned task fails, whichever executor evaluates it. -/
theorem not_createDirectory :
    (DataDirectory.tasks "/data/new").plan (fun _ => .ok []) =
        .ok (DataDirectory.plan "/data/new") ∧
      (DataDirectory.machine (.error (.msg "No such file or directory"))).Shows DataDirectory.fs
        [.directoryExists "/data/new"] ∧
      (DataDirectory.server 1).Shows DataDirectory.fs [.directoryExists "/data/new"] ∧
      ¬ CreatesDirectory DataDirectory.fs "/data/new"
        (Effect.outcome (SimpleExecutor.ensureTask
          (DataDirectory.machine (.error (.msg "No such file or directory"))).probe 0
          [.directoryExists "/data/new"] (.fresh none)) = .ok [])
        (DataDirectory.fs.run ["mkdir", "/data/new"]) ∧
      ¬ CreatesDirectory DataDirectory.fs "/data/new"
        (Effect.outcome (SshExecutor.ensureTask (DataDirectory.server 1).check 0
          [.directoryExists "/data/new"] (.fresh none)) = .ok [])
        (DataDirectory.fs.runLine "mkdir /data/new") := by
  refine ⟨rfl, DataDirectory.machine_shows rfl rfl,
    DataDirectory.server_shows (by decide) rfl, ?_, ?_⟩
  · intro creates
    have passed := (creates.useful rfl rfl).1
    have failed : [Ensure.directoryExists "/data/new"] = [] := Except.ok.inj passed
    cases failed
  · intro creates
    have passed := (creates.useful rfl rfl).1
    have failed : [Ensure.directoryExists "/data/new"] = [] := Except.ok.inj passed
    cases failed

end There
