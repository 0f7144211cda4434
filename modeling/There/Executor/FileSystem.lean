import Mathlib.Tactic.IntervalCases
import There.Executor.Simple
import There.Executor.Ssh
import There.Executor.CommandLine

/-!
# What the ensures mean on a file system

A machine is reduced to what the ensures and `mkdir` can tell about it. The local
executor asks it by library calls, the SSH executor by command lines, which a shell
reads and whose exit status it reports. Both are compared with what the
documentation of the ensures says.

The two negative ensures are where they part: the local executor passes them only on
an absent path, the SSH executor on every path that is not of the tested kind.
-/

namespace There

/-- A machine as far as ensures and `mkdir` can tell. `kind` is what stands at a path,
symbolic links followed, and nothing for an absent path. `container` says whether the
directory that would contain the path exists. The search for an executable by `which`
and by the local executor is taken to be the same. -/
structure FileSystem where
  kind : String → Option FileType
  container : String → Bool
  which : String → Bool
  /-- There is nothing at the empty path, and nowhere to create it. -/
  empty : kind "" = none ∧ container "" = false

namespace FileSystem

def statusOf (holds : Bool) : Nat := if holds then 0 else 1

/-- Create a directory. Fails if there is anything at the path. -/
def mkdir (fs : FileSystem) (path : String) : Nat × FileSystem :=
  if creates : fs.kind path = none ∧ fs.container path = true then
    (0, { fs with
      kind := fun p => if p = path then some .dir else fs.kind p
      empty := by
        have ne : "" ≠ path := by
          rintro rfl
          rw [fs.empty.2] at creates
          exact absurd creates.2 (by decide)
        rw [if_neg ne]
        exact fs.empty })
  else
    (1, fs)

/-- Run an argument vector: the exit status and the file system afterwards. Nothing is
known about other commands than those below, or about paths taken for options. -/
def run (fs : FileSystem) : List String → Option (Nat × FileSystem)
  | ["test", "-d", path] => some (statusOf (fs.kind path == some .dir), fs)
  | ["test", "-f", path] => some (statusOf (fs.kind path == some .file), fs)
  | ["which", exe] => some (statusOf (fs.which exe), fs)
  | ["mkdir", path] => if path.toList.head? = some '-' then none else some (fs.mkdir path)
  | _ => none

/-- Have a shell run a line. -/
def runLine (fs : FileSystem) (line : String) : Option (Nat × FileSystem) :=
  (Shell.simpleCommand line).bind fs.run

/-- The documented condition of an ensure. A path that must not exist as a file must
not be a directory either, and the other way round. -/
def Documented (fs : FileSystem) : Ensure → Prop
  | .fileExists path => fs.kind path = some .file
  | .directoryExists path => fs.kind path = some .dir
  | .fileDoesntExist path => fs.kind path ≠ some .file ∧ fs.kind path ≠ some .dir
  | .directoryDoesntExist path => fs.kind path ≠ some .dir ∧ fs.kind path ≠ some .file
  | .exeExists exe => fs.which exe

/-- Whether the local executor lets an ensure pass. -/
def passesLocally (fs : FileSystem) : Ensure → Bool
  | .directoryDoesntExist path => fs.kind path == none
  | .directoryExists path => fs.kind path == some .dir
  | .fileDoesntExist path => fs.kind path == none
  | .fileExists path => fs.kind path == some .file
  | .exeExists exe => fs.which exe

/-- Whether the SSH executor lets an ensure pass. -/
def passesRemotely (fs : FileSystem) : Ensure → Bool
  | .directoryDoesntExist path => fs.kind path != some .dir
  | .directoryExists path => fs.kind path == some .dir
  | .fileDoesntExist path => fs.kind path != some .file
  | .fileExists path => fs.kind path == some .file
  | .exeExists exe => fs.which exe

end FileSystem

/-- The machine answers the library calls for an ensure as its file system is. -/
structure Probe.Shows (probe : Probe) (fs : FileSystem) (ensure : Ensure) : Prop where
  metadata : probe.metadata.toOption = fs.kind ensure.argument
  metadataAgain : probe.metadataAgain.toOption = fs.kind ensure.argument
  which : probe.which.isOk = fs.which ensure.argument

/-- The machine answers every ensure of the task as its file system is. -/
def LocalTask.Shows (machine : LocalTask) (fs : FileSystem) (ensures : List Ensure) : Prop :=
  ∀ i, ∀ ensure ∈ ensures[i]?, (machine.probe i).Shows fs ensure

/-- The server reports the true exit status of every check. -/
def SshTask.Shows (server : SshTask) (fs : FileSystem) (ensures : List Ensure) : Prop :=
  ∀ i, ∀ ensure ∈ ensures[i]?, ∀ status fs', fs.runLine ensure.checkLine = some (status, fs') →
    (server.check i).Answers status

section Ensures

variable {fs : FileSystem} {ensure : Ensure} {ensures : List Ensure}

/-- A path that must not exist is asked for once. -/
theorem Probe.absent_eq {answer : Except Report FileType} {kind : Option FileType}
    (shows : answer.toOption = kind) : (!answer.isOk) = (kind == none) := by
  subst shows
  cases answer <;> rfl

/-- A path that must be of some kind is asked for once more if it exists. -/
theorem Probe.present_eq {first second : Except Report FileType} {kind : Option FileType}
    (shows : first.toOption = kind) (again : second.toOption = kind) (wanted : FileType) :
    (if first.isOk then second.map (· == wanted) else .ok false) = .ok (kind == some wanted) := by
  subst shows
  cases first with
  | error e => rfl
  | ok found =>
      cases second with
      | error e => cases again
      | ok found' =>
          obtain rfl : found' = found := Option.some.inj again
          rfl

theorem Probe.query_eq {probe : Probe} (shows : probe.Shows fs ensure) :
    ensure.query probe = .ok (fs.passesLocally ensure) := by
  cases ensure with
  | directoryDoesntExist path => exact congrArg _ (Probe.absent_eq shows.metadata)
  | directoryExists path => exact Probe.present_eq shows.metadata shows.metadataAgain .dir
  | fileDoesntExist path => exact congrArg _ (Probe.absent_eq shows.metadata)
  | fileExists path => exact Probe.present_eq shows.metadata shows.metadataAgain .file
  | exeExists exe => exact congrArg _ shows.which

/-- A check whose argument needs no quoting is read as it is meant, and exits with
zero exactly when what it tests holds. -/
theorem runLine_checkLine (fs : FileSystem) (unspecial : Shell.Unspecial ensure.argument) :
    ∃ status, fs.runLine ensure.checkLine = some (status, fs) ∧
      ensure.passes status = fs.passesRemotely ensure := by
  rw [FileSystem.runLine, (checkLine_iff ensure).mpr unspecial.inert, Option.bind_some]
  have zero : ∀ holds : Bool, (FileSystem.statusOf holds == 0) = holds ∧
      (FileSystem.statusOf holds != 0) = !holds := by decide
  cases ensure with
  | directoryDoesntExist path => exact ⟨_, rfl, (zero _).2⟩
  | directoryExists path => exact ⟨_, rfl, (zero _).1⟩
  | fileDoesntExist path => exact ⟨_, rfl, (zero _).2⟩
  | fileExists path => exact ⟨_, rfl, (zero _).1⟩
  | exeExists exe => exact ⟨_, rfl, (zero _).1⟩

end Ensures

/-- Against a machine that answers truly the local executor returns the ensures that do
not pass, in the order of the task. -/
theorem SimpleExecutor.ensureTask_returns (fs : FileSystem) {probe : Nat → Probe} {i : Nat}
    {ensures : List Ensure} (shows : ∀ j, ∀ ensure ∈ ensures[j]?, (probe (i + j)).Shows fs ensure) :
    Emits (ensureTask probe i ensures) fun r _ =>
      r = .ok (ensures.filter fun ensure => !fs.passesLocally ensure) := by
  induction ensures generalizing i with
  | nil => exact Emits.pure rfl
  | cons ensure ensures ih =>
      obtain ⟨first, rest⟩ :=
        (forall_numbered_cons fun j (e : Ensure) => (probe j).Shows fs e).mp shows
      refine Emits.sink_bind (Emits.emit_bind (by simp) (Emits.ofExcept_bind ?_ ?_))
      · intro pass answer
        obtain rfl : fs.passesLocally ensure = pass :=
          Except.ok.inj ((Probe.query_eq first).symm.trans answer)
        refine Emits.bind (ih rest) ?_ ?_
        · rintro failures es ⟨⟩
          refine Emits.pure ?_
          cases pass : fs.passesLocally ensure <;> simp [pass]
        · rintro e es ⟨⟩
      · intro e answer
        cases (Probe.query_eq first).symm.trans answer

theorem SshExecutor.ensureTask_returns (fs : FileSystem) {check : Nat → ChannelRun} {i : Nat}
    {ensures : List Ensure} (unspecial : ∀ ensure ∈ ensures, Shell.Unspecial ensure.argument)
    (shows : ∀ j, ∀ ensure ∈ ensures[j]?, ∀ status fs',
      fs.runLine ensure.checkLine = some (status, fs') → (check (i + j)).Answers status) :
    Emits (ensureTask check i ensures) fun r _ =>
      r = .ok (ensures.filter fun ensure => !fs.passesRemotely ensure) := by
  induction ensures generalizing i with
  | nil => exact Emits.pure rfl
  | cons ensure ensures ih =>
      obtain ⟨first, rest⟩ := (forall_numbered_cons fun j (e : Ensure) => ∀ status fs',
        fs.runLine e.checkLine = some (status, fs') → (check j).Answers status).mp shows
      obtain ⟨plain, unspecial⟩ := List.forall_mem_cons.mp unspecial
      obtain ⟨status, ran, passes⟩ := runLine_checkLine fs plain
      refine Emits.sink_bind (Emits.bind (executeCommand_check ensure (check i)) ?_ ?_)
      · rintro status' es ⟨-, answer⟩
        obtain rfl : status' = status := by
          rw [((answer status').mp rfl).status, (first status fs ran).status]
        rw [passes]
        refine Emits.bind (ih unspecial rest) ?_ ?_
        · rintro failures es ⟨⟩
          refine Emits.pure ?_
          cases pass : fs.passesRemotely ensure <;> simp [pass]
        · rintro e es ⟨⟩
      · rintro e es ⟨-, answer⟩
        cases (answer status).mpr (first status fs ran)

/-- The executors return the same ensures, those whose documented condition is false. -/
def EnsuresAgree (fs : FileSystem) (ensures : List Ensure)
    (locally remotely : Except Abort (List Ensure)) : Prop :=
  ∃ failures, locally = .ok failures ∧ remotely = .ok failures ∧
    ∀ ensure ∈ ensures, ensure ∈ failures ↔ ¬ fs.Documented ensure

/-- A path that must not exist in one way does not exist in another. -/
def FileSystem.Unambiguous (fs : FileSystem) : Ensure → Prop
  | .fileDoesntExist path => fs.kind path = none ∨ fs.kind path = some .file
  | .directoryDoesntExist path => fs.kind path = none ∨ fs.kind path = some .dir
  | _ => True

/-- The executors agree on an ensure, and with its documentation, exactly on these paths. -/
theorem FileSystem.unambiguous_iff (fs : FileSystem) (ensure : Ensure) :
    fs.Unambiguous ensure ↔ fs.passesLocally ensure = fs.passesRemotely ensure ∧
      (fs.passesLocally ensure ↔ fs.Documented ensure) := by
  cases ensure with
  | fileDoesntExist path | directoryDoesntExist path =>
      simp only [Unambiguous, passesLocally, passesRemotely, Documented]
      cases fs.kind path with
      | none => simp
      | some found => cases found <;> simp
  | _ => simp [Unambiguous, passesLocally, passesRemotely, Documented]

/-- The two executors agree on the ensures of a task, and with the documentation,
exactly when no path that must not exist as a file is anything else, and no path that
must not exist as a directory is. -/
theorem ensuresAgree_iff (fs : FileSystem) (task : PlannedTask) (machine : LocalTask)
    (server : SshTask) (s s' : Record) (kept : s.receiver = none) (kept' : s'.receiver = none)
    (unspecial : ∀ ensure ∈ task.ensures, Shell.Unspecial ensure.argument)
    (locally : machine.Shows fs task.ensures) (remotely : server.Shows fs task.ensures) :
    EnsuresAgree fs task.ensures
        (Effect.outcome (SimpleExecutor.ensureTask machine.probe 0 task.ensures s))
        (Effect.outcome (SshExecutor.ensureTask server.check 0 task.ensures s')) ↔
      ∀ ensure ∈ task.ensures, fs.Unambiguous ensure := by
  obtain ⟨-, _, -, -, onMachine⟩ := SimpleExecutor.ensureTask_returns fs (i := 0)
    (by simpa [LocalTask.Shows] using locally) s kept
  obtain ⟨-, _, -, -, onServer⟩ := SshExecutor.ensureTask_returns fs (i := 0) unspecial
    (by simpa [SshTask.Shows] using remotely) s' kept'
  rw [onMachine, onServer]
  simp only [FileSystem.unambiguous_iff]
  constructor
  · rintro ⟨failures, ok, ok', documented⟩ ensure member
    obtain rfl := Except.ok.inj ok
    have same := Except.ok.inj ok'
    have onlyLocally := documented ensure member
    have onlyRemotely := documented ensure member
    rw [← same] at onlyRemotely
    simp only [List.mem_filter, member, true_and, Bool.not_eq_true'] at onlyLocally onlyRemotely
    constructor
    · rw [Bool.eq_iff_iff, ← not_iff_not, Bool.not_eq_true, Bool.not_eq_true, onlyLocally,
        onlyRemotely]
    · rw [← not_iff_not, Bool.not_eq_true, onlyLocally]
  · intro all
    have same : task.ensures.filter (fun ensure => !fs.passesRemotely ensure) =
        task.ensures.filter fun ensure => !fs.passesLocally ensure :=
      List.filter_congr fun ensure member => by rw [(all ensure member).1]
    refine ⟨_, rfl, by rw [same], fun ensure member => ?_⟩
    simp only [List.mem_filter, member, true_and, Bool.not_eq_true']
    rw [← (all ensure member).2, Bool.not_eq_true]

namespace DataDirectory

/-- A directory, and a regular file in it. -/
def fs : FileSystem where
  kind p := if p = "/data" then some .dir else if p = "/data/log" then some .file else none
  container p := p == "/data/new"
  which exe := exe == "mkdir"
  empty := by decide

/-- One ensure, that there is no file at the path. -/
def task (path : String) : PlannedTask := ⟨"guarded", ["true"], [.fileDoesntExist path], []⟩

/-- The machine finds this, or nothing, at the path. -/
def machine (found : Except Report FileType) : LocalTask where
  probe _ := ⟨found, found, .error (.msg "cannot find binary path")⟩
  child := ⟨.ok ⟨⟩, [.exhausted], some 0⟩

/-- The channel of a check that exits with this status. -/
def exits (status : Nat) : ChannelRun := ⟨.ok ⟨⟩, .ok ⟨⟩, [.exitStatus status, .close]⟩

/-- The server answers the check with this status. -/
def server (status : Nat) : SshTask where
  check _ := exits status
  command := exits 0

theorem machine_shows {ensure : Ensure} {found : Except Report FileType}
    (h : found.toOption = fs.kind ensure.argument) (other : fs.which ensure.argument = false) :
    (machine found).Shows fs [ensure] := by
  intro i ensure' listed
  obtain rfl : ensure = ensure' := (List.mem_singleton.mp (List.mem_of_getElem? listed)).symm
  exact ⟨h, h, other.symm⟩

theorem exits_answers {ensure : Ensure} {status : Nat} (plain : Shell.Unspecial ensure.argument)
    (h : fs.run ensure.words = some (status, fs)) :
    ∀ status' fs', fs.runLine ensure.checkLine = some (status', fs') →
      (exits status).Answers status' := by
  intro status' fs' ran
  rw [FileSystem.runLine, (checkLine_iff ensure).mpr plain.inert, Option.bind_some, h] at ran
  cases ran
  refine ⟨⟨rfl, rfl⟩, ?_, rfl⟩
  simp [exits, Decodes, ChannelMsg.ends]

theorem server_shows {ensure : Ensure} {status : Nat} (plain : Shell.Unspecial ensure.argument)
    (h : fs.run ensure.words = some (status, fs)) : (server status).Shows fs [ensure] := by
  intro i ensure' listed
  obtain rfl : ensure = ensure' := (List.mem_singleton.mp (List.mem_of_getElem? listed)).symm
  exact exits_answers plain h

/-- Ensures of every kind, some of which fail. -/
def mixed : PlannedTask where
  name := "guarded"
  command := ["true"]
  ensures := [.fileDoesntExist "/data/log", .directoryDoesntExist "/data",
    .fileDoesntExist "/data/new", .directoryDoesntExist "/data/new", .directoryExists "/data",
    .fileExists "/data/new", .exeExists "mkdir", .exeExists "touch"]
  hosts := []

/-- What the machine finds for each of them. -/
def mixedMachine : LocalTask where
  probe i :=
    let absent : Except Report FileType := .error (.msg "No such file or directory")
    let found := [.ok .file, .ok .dir, absent, absent, .ok .dir].getD i absent
    ⟨found, found, if i = 6 then .ok ⟨⟩ else .error (.msg "cannot find binary path")⟩
  child := ⟨.ok ⟨⟩, [.exhausted], some 0⟩

/-- What the server reports for each of them. -/
def mixedServer : SshTask where
  check i := exits ([0, 0, 1, 1, 0, 1, 0].getD i 1)
  command := exits 0

theorem mixedMachine_shows : mixedMachine.Shows fs mixed.ensures := by
  intro i ensure listed
  have lt : i < 8 := (List.getElem?_eq_some_iff.mp listed).1
  interval_cases i <;> obtain rfl := Option.some.inj listed <;> exact ⟨rfl, rfl, rfl⟩

theorem mixedServer_shows : mixedServer.Shows fs mixed.ensures := by
  intro i ensure listed
  have lt : i < 8 := (List.getElem?_eq_some_iff.mp listed).1
  interval_cases i <;> obtain rfl := Option.some.inj listed <;>
    exact exits_answers (by decide) rfl

end DataDirectory

/-- The executors agree on which ensures fail where the negative ones name a regular file, a
directory and an absent path. -/
theorem ensuresAgree_mixed :
    EnsuresAgree DataDirectory.fs DataDirectory.mixed.ensures
      (Effect.outcome (SimpleExecutor.ensureTask DataDirectory.mixedMachine.probe 0
        DataDirectory.mixed.ensures (.fresh none)))
      (Effect.outcome (SshExecutor.ensureTask DataDirectory.mixedServer.check 0
        DataDirectory.mixed.ensures (.fresh none))) := by
  refine (ensuresAgree_iff DataDirectory.fs DataDirectory.mixed _ _ _ _ rfl rfl (by decide)
    DataDirectory.mixedMachine_shows DataDirectory.mixedServer_shows).mpr ?_
  simp [DataDirectory.mixed, FileSystem.Unambiguous, DataDirectory.fs]

/-- A directory stands at a path at which no file may exist. The documentation and the
local executor say that the ensure fails, the SSH executor lets it pass. -/
theorem not_ensuresAgree :
    (DataDirectory.machine (.ok .dir)).Shows DataDirectory.fs (DataDirectory.task "/data").ensures ∧
      (DataDirectory.server 1).Shows DataDirectory.fs (DataDirectory.task "/data").ensures ∧
      ¬ EnsuresAgree DataDirectory.fs (DataDirectory.task "/data").ensures
        (Effect.outcome (SimpleExecutor.ensureTask (DataDirectory.machine (.ok .dir)).probe 0
          (DataDirectory.task "/data").ensures (.fresh none)))
        (Effect.outcome (SshExecutor.ensureTask (DataDirectory.server 1).check 0
          (DataDirectory.task "/data").ensures (.fresh none))) := by
  refine ⟨DataDirectory.machine_shows rfl rfl, DataDirectory.server_shows (by decide) rfl, ?_⟩
  rintro ⟨failures, locally, remotely, -⟩
  have one : failures = [.fileDoesntExist "/data"] := (Except.ok.inj locally).symm
  have none : failures = [] := (Except.ok.inj remotely).symm
  rw [one] at none
  cases none

end There
