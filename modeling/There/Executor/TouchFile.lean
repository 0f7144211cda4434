import There.Executor.FileSystem
import There.Plan.Translation
import There.Posix.Path

/-!
# Tasks that touch a file

The planner asks for the parent directory of the file, which `Path::parent` takes from
the text of the path. For a path with a slash this text leads to the directory in which
`touch` creates the file, whatever slashes and current-directory segments it leaves out.
For a path without one the text is empty, and nothing exists at an empty path.

A final segment that is a symbolic link to nothing is left out of account: `touch` then
creates the target of the link.
-/

namespace There

open Posix

/-- A tree of files, with what stands at each node. -/
structure Disk (ν : Type) extends FileTree ν where
  kind : ν → FileType
  isDir_iff : ∀ n, isDir n ↔ kind n = .dir

namespace Disk

variable {ν : Type} (disk : Disk ν)

/-- What the ensures can tell about a tree of files. -/
def fileSystem (which : String → Bool) : FileSystem where
  kind path := (disk.resolve path.toList).map disk.kind
  container path := (disk.container path.toList).any disk.isDir
  which
  empty := ⟨rfl, rfl⟩

theorem kind_fileSystem (which : String → Bool) (path : String) :
    (disk.fileSystem which).kind path = some .dir ↔ disk.DirExists path.toList := by
  simp only [fileSystem, Option.map_eq_some_iff, FileTree.DirExists, Option.mem_def, disk.isDir_iff]

end Disk

namespace Path

theorem isSkipped_eq : isSkipped = stays := rfl

theorem join_eq (segs : List (List Char)) : join segs = ['/'].intercalate segs := rfl

section Parent

variable {path : String} {first last : List Char} {init : List (List Char)}

theorem trimRight_concat (name : IsName last) (segs : List (List Char)) :
    trimRight (segs ++ [last]) = segs ++ [last] :=
  List.rdropWhile_concat_neg _ _ _ name.1

theorem parent_of_absolute (eq : segments path.toList = [] :: (init ++ [last]))
    (name : IsName last) :
    parent path = some (String.ofList ('/' :: join (trimRight init))) := by
  rw [segments] at eq
  simp only [parent, eq, trimRight_concat name]
  split
  · rename_i none
    simp at none
  · rw [List.dropLast_concat]

theorem parent_of_here (eq : segments path.toList = ['.'] :: (init ++ [last]))
    (name : IsName last) :
    parent path = some (String.ofList (join (['.'] :: trimRight init))) := by
  rw [segments] at eq
  simp only [parent, eq, trimRight_concat name]
  split
  · rename_i none
    simp at none
  · rw [List.dropLast_concat]

/-- Any other first segment is not skipped. -/
theorem parent_of_relative (eq : segments path.toList = init ++ [last]) (name : IsName last)
    (relative : ∀ first ∈ init.head?, ¬ isSkipped first) :
    parent path = some (String.ofList (join (trimRight init))) := by
  rw [segments] at eq
  rw [parent, eq]
  split
  · rename_i none
    simp at none
  · rename_i absolute
    cases init with
    | nil =>
        obtain ⟨rfl, -⟩ : last = [] ∧ _ := by simpa using absolute
        exact absurd rfl name.1
    | cons first init =>
        obtain ⟨rfl, -⟩ : first = [] ∧ _ := by simpa using absolute
        exact absurd rfl (relative [] rfl)
  · rename_i here
    cases init with
    | nil =>
        obtain ⟨rfl, -⟩ : last = ['.'] ∧ _ := by simpa using here
        exact absurd rfl name.1
    | cons first init =>
        obtain ⟨rfl, -⟩ : first = ['.'] ∧ _ := by simpa using here
        exact absurd rfl (relative ['.'] rfl)
  · rw [trimRight_concat name]
    split
    · rename_i none
      simp at none
    · rw [List.dropLast_concat]

/-- The segments that the parent keeps are among those of the path, so none has a slash. -/
theorem slash_not_mem_trimRight {segs : List (List Char)} (free : ∀ segment ∈ segs, '/' ∉ segment) :
    ∀ segment ∈ trimRight segs, '/' ∉ segment := fun segment mem =>
  free segment ((List.rdropWhile_prefix _ _).sublist.subset mem)

/-- A first segment that is not skipped is kept. -/
theorem trimRight_cons (kept : ¬ isSkipped first) :
    ∃ rest, trimRight (first :: init) = first :: rest := by
  obtain ⟨dropped, eq⟩ := List.rdropWhile_prefix isSkipped (first :: init)
  cases trimmed : trimRight (first :: init) with
  | nil => exact absurd (trimRight_eq_nil.mp trimmed first List.mem_cons_self) kept
  | cons first' rest =>
      rw [trimRight] at trimmed
      rw [trimmed, List.cons_append] at eq
      exact ⟨rest, by rw [(List.cons.inj eq).1]⟩

variable {ν : Type} (t : FileTree ν)

theorem dirExists_absolute (free : ∀ segment ∈ init, '/' ∉ segment) :
    t.DirExists ('/' :: join (trimRight init)) ↔ t.LeadsToDir t.root init := by
  have root : ∀ segs, t.start ([] :: segs) = t.root := fun _ => rfl
  have free := slash_not_mem_trimRight free
  rw [← FileTree.leadsToDir_rdropWhile, ← isSkipped_eq, ← trimRight]
  cases trimmed : trimRight init with
  | nil =>
      have slash : '/' :: join [] = ['/'].intercalate [[], []] := rfl
      rw [slash, t.dirExists_intercalate (by simp) (by simp) (by simp), root,
        FileTree.leadsToDir_cons t.root_isDir rfl, FileTree.leadsToDir_cons t.root_isDir rfl]
  | cons segment segs =>
      have slash : '/' :: join (segment :: segs) = ['/'].intercalate ([] :: segment :: segs) := by
        rw [List.intercalate_cons_of_ne_nil (List.cons_ne_nil _ _)]
        rfl
      rw [trimmed] at free
      rw [slash, t.dirExists_intercalate (by simp)
        (List.forall_mem_cons.mpr ⟨List.not_mem_nil, free⟩) (by simp), root,
        FileTree.leadsToDir_cons t.root_isDir rfl]

theorem dirExists_here (free : ∀ segment ∈ init, '/' ∉ segment) :
    t.DirExists (join (['.'] :: trimRight init)) ↔ t.LeadsToDir t.cwd init := by
  have cwd : ∀ segs, t.start (['.'] :: segs) = t.cwd := fun _ => rfl
  rw [join_eq, t.dirExists_intercalate (List.cons_ne_nil _ _)
    (List.forall_mem_cons.mpr ⟨by decide, slash_not_mem_trimRight free⟩) (by simp), cwd,
    FileTree.leadsToDir_cons t.cwd_isDir rfl, trimRight, isSkipped_eq,
    FileTree.leadsToDir_rdropWhile]

theorem dirExists_relative (free : ∀ segment ∈ first :: init, '/' ∉ segment)
    (kept : ¬ isSkipped first) :
    t.DirExists (join (trimRight (first :: init))) ↔ t.LeadsToDir t.cwd (first :: init) := by
  have free := slash_not_mem_trimRight free
  have something : first ≠ [] := by
    rintro rfl
    exact kept rfl
  rw [← FileTree.leadsToDir_rdropWhile, ← isSkipped_eq, ← trimRight]
  obtain ⟨rest, trimmed⟩ : ∃ rest, trimRight (first :: init) = first :: rest := trimRight_cons kept
  rw [trimmed] at free ⊢
  rw [join_eq, t.dirExists_intercalate (List.cons_ne_nil _ _) free (by simp [something]),
    FileTree.start, if_neg (by simp [something])]

/-- For a path that ends in a name, the parent is a directory exactly when the path has a
slash and there is a directory for the name. -/
theorem dirExists_parent {parent' : String} (name : EndsInName path.toList)
    (h : parent path = some parent') :
    t.DirExists parent'.toList ↔ '/' ∈ path.toList ∧ t.ContainerExists path.toList := by
  obtain ⟨init, last, eq, name⟩ := name.exists_concat
  have free : ∀ segment ∈ init, '/' ∉ segment := fun segment mem =>
    slash_not_mem (by rw [eq]; exact List.mem_append_left _ mem)
  rw [slash_mem_iff eq, t.containerExists_iff eq name]
  cases init with
  | nil =>
      rw [parent_of_relative eq name (by simp)] at h
      obtain rfl := Option.some.inj h
      simp [FileTree.DirExists, FileTree.resolve, trimRight, join]
  | cons first init =>
      rw [and_iff_right (List.cons_ne_nil _ _), List.cons_append]
      obtain ⟨-, free'⟩ := List.forall_mem_cons.mp free
      by_cases absolute : first = []
      · subst absolute
        rw [parent_of_absolute eq name] at h
        obtain rfl := Option.some.inj h
        have root : t.start ([] :: (init ++ [last])) = t.root := rfl
        rw [String.toList_ofList, dirExists_absolute t free', root,
          FileTree.leadsToDir_cons t.root_isDir rfl]
      · have cwd : t.start (first :: (init ++ [last])) = t.cwd := if_neg (by simp [absolute])
        by_cases here : first = ['.']
        · subst here
          rw [parent_of_here eq name] at h
          obtain rfl := Option.some.inj h
          rw [String.toList_ofList, dirExists_here t free', cwd,
            FileTree.leadsToDir_cons t.cwd_isDir rfl]
        · have kept : ¬ isSkipped first := by simp [isSkipped, absolute, here]
          rw [parent_of_relative eq name (by simpa using kept)] at h
          obtain rfl := Option.some.inj h
          rw [String.toList_ofList, dirExists_relative t free kept, cwd]

theorem mem_join_trimRight {c : Char} (mem : c ∈ join (trimRight init)) :
    c = '/' ∨ ∃ segment ∈ init, c ∈ segment :=
  (mem_intercalate mem).imp_right fun ⟨segment, kept, mem⟩ =>
    ⟨segment, (List.rdropWhile_prefix _ _).sublist.subset kept, mem⟩

/-- The parent is made of slashes and of characters of the path. -/
theorem mem_parent {parent' : String} (name : EndsInName path.toList)
    (h : parent path = some parent') {c : Char} (mem : c ∈ parent'.toList) :
    c = '/' ∨ c ∈ path.toList := by
  obtain ⟨init, last, eq, name⟩ := name.exists_concat
  have within : (∃ segment ∈ init, c ∈ segment) → c ∈ path.toList := fun ⟨segment, kept, mem⟩ =>
    mem_of_mem_segments (by rw [eq]; exact List.mem_append_left _ kept) mem
  by_cases relative : ∀ first ∈ init.head?, ¬ isSkipped first
  · rw [parent_of_relative eq name relative] at h
    obtain rfl := Option.some.inj h
    rw [String.toList_ofList] at mem
    exact (mem_join_trimRight mem).imp_right within
  · obtain ⟨first, rest, rfl, skipped⟩ : ∃ first rest, init = first :: rest ∧ isSkipped first := by
      cases init <;> simp_all
    rw [List.cons_append] at eq
    have rest' : (∃ segment ∈ rest, c ∈ segment) → c ∈ path.toList := fun ⟨segment, kept, mem⟩ =>
      within ⟨segment, List.mem_cons_of_mem _ kept, mem⟩
    obtain rfl | rfl : first = [] ∨ first = ['.'] := by simpa [isSkipped] using skipped
    · rw [parent_of_absolute eq name] at h
      obtain rfl := Option.some.inj h
      rw [String.toList_ofList] at mem
      rcases List.mem_cons.mp mem with rfl | mem
      · exact .inl rfl
      · exact (mem_join_trimRight mem).imp_right rest'
    · rw [parent_of_here eq name] at h
      obtain rfl := Option.some.inj h
      rw [String.toList_ofList] at mem
      obtain slash | ⟨segment, kept, mem⟩ := mem_intercalate mem
      · exact .inl slash
      · refine .inr (within ⟨segment, ?_, mem⟩)
        exact (List.mem_cons.mp kept).elim (fun h => h ▸ List.mem_cons_self) fun kept =>
          List.mem_cons_of_mem _ ((List.rdropWhile_prefix _ _).sublist.subset kept)

end Parent

end Path

/-- What is expected of the ensures of a task that touches the file, whichever executor
answers: the check for a directory passes exactly when there is one for the file. -/
def ChecksContainer {ν : Type} (disk : Disk ν) (path : String) (ensures : List Ensure)
    (answer : Except Abort (List Ensure)) : Prop :=
  ∃ failures dir, answer = .ok failures ∧ .directoryExists dir ∈ ensures ∧
    (.directoryExists dir ∉ failures ↔ disk.ContainerExists path.toList)

section General

variable {ν : Type} {disk : Disk ν} {which : String → Bool} {path dir : String}

theorem checksContainer_iff {passes : Ensure → Bool} {answer : Except Abort (List Ensure)}
    (answered : answer = .ok ([.exeExists "touch", .directoryExists dir].filter (!passes ·)))
    (same : passes (.directoryExists dir) = ((disk.fileSystem which).kind dir == some .dir))
    (name : EndsInName path.toList) (parent : Path.parent path = some dir) :
    ChecksContainer disk path [.exeExists "touch", .directoryExists dir] answer ↔
      '/' ∈ path.toList := by
  have checked : .directoryExists dir ∉
      [Ensure.exeExists "touch", .directoryExists dir].filter (!passes ·) ↔
        '/' ∈ path.toList ∧ disk.ContainerExists path.toList := by
    rw [← Path.dirExists_parent disk.toFileTree name parent, ← disk.kind_fileSystem which]
    simp [List.mem_filter, same]
  constructor
  · rintro ⟨failures, dir', rfl, mem, iff⟩
    obtain rfl : dir' = dir := by simpa using mem
    obtain rfl := Except.ok.inj answered
    by_contra free
    exact free (checked.mp (iff.mpr (disk.containerExists_of_no_slash name free))).1
  · intro slash
    exact ⟨_, dir, answered, by simp, checked.trans (and_iff_right slash)⟩

/-- Both executors look for the directory in which the file is created exactly when the
path of the file has a slash. -/
theorem touchFile_iff (split : ShellSplit) (tasks : TaskSet) (plan : Plan) (k : Nat)
    (name path : String) (hosts : List String) (planned : PlannedTask)
    (planning : tasks.plan split = .ok plan)
    (listed : tasks.tasks[k]? = some (.touchFile name path hosts))
    (listed' : plan.blueprint[k]? = some planned) (disk : Disk ν) (which : String → Bool)
    (machine : LocalTask) (server : SshTask) (s s' : Record) (kept : s.receiver = none)
    (kept' : s'.receiver = none) (file : EndsInName path.toList)
    (unspecial : Shell.Unspecial path)
    (locally : machine.Shows (disk.fileSystem which) planned.ensures)
    (remotely : server.Shows (disk.fileSystem which) planned.ensures) :
    ChecksContainer disk path planned.ensures
        (Effect.outcome (SimpleExecutor.ensureTask machine.probe 0 planned.ensures s)) ∧
      ChecksContainer disk path planned.ensures
        (Effect.outcome (SshExecutor.ensureTask server.check 0 planned.ensures s')) ↔
    '/' ∈ path.toList := by
  obtain ⟨dir, parent, ensures⟩ : ∃ dir, Path.parent path = some dir ∧
      planned.ensures = [.exeExists "touch", .directoryExists dir] := by
    have same := congrArg (·[k]?) (TaskSet.plan_blueprint planning).2
    simp only [List.getElem?_map, listed, listed', Option.map_some, Task.planned] at same
    cases parent : Path.parent path with
    | none => simp [parent] at same
    | some dir =>
        obtain rfl : planned = _ := by simpa [parent] using same
        exact ⟨dir, rfl, rfl⟩
  rw [ensures] at locally remotely ⊢
  have plain : ∀ ensure ∈ [.exeExists "touch", .directoryExists dir],
      Shell.Unspecial (Ensure.argument ensure) := by
    have touch : Shell.Unspecial "touch" := by decide
    have parent' : Shell.Unspecial dir := fun c mem => by
      obtain rfl | mem := Path.mem_parent file parent mem
      · decide
      · exact unspecial c mem
    simpa [Ensure.argument] using ⟨touch, parent'⟩
  obtain ⟨-, _, -, -, onMachine⟩ := SimpleExecutor.ensureTask_returns (disk.fileSystem which)
    (i := 0) (by simpa [LocalTask.Shows] using locally) s kept
  obtain ⟨-, _, -, -, onServer⟩ := SshExecutor.ensureTask_returns (disk.fileSystem which)
    (i := 0) plain (by simpa [SshTask.Shows] using remotely) s' kept'
  rw [checksContainer_iff onMachine rfl file parent, checksContainer_iff onServer rfl file parent,
    and_self]

end General

namespace LogFile

/-- The root, which is the working directory as well, and the directory `data` in it. -/
def disk : Disk Bool where
  root := false
  cwd := false
  isDir _ := true
  entry n name := if n = false ∧ name = "data".toList then some true else none
  root_isDir := rfl
  cwd_isDir := rfl
  kind _ := .dir
  isDir_iff _ := by simp

def fs : FileSystem := disk.fileSystem (· == "touch")

def tasks (path : String) : TaskSet := ⟨"setup", [.touchFile "log" path ["web"]]⟩

/-- The ensures of the planned task, with the directory that is looked for. -/
def ensures (dir : String) : List Ensure := [.exeExists "touch", .directoryExists dir]

def plan (path dir : String) : Plan := ⟨"setup", [⟨"log", ["touch", path], ensures dir, ["web"]⟩]⟩

def missing : Except Report FileType := .error (.msg "No such file or directory")

/-- The machine has `touch`, and finds this at the path of the directory. -/
def machine (found : Except Report FileType) : LocalTask where
  probe
    | 0 => ⟨missing, missing, .ok ⟨⟩⟩
    | _ => ⟨found, found, .error (.msg "cannot find binary path")⟩
  child := ⟨.ok ⟨⟩, [.exhausted], some 0⟩

/-- The server has `touch`, and answers the check for the directory with this status. -/
def server (status : Nat) : SshTask where
  check
    | 0 => ⟨.ok ⟨⟩, .ok ⟨⟩, [.exitStatus 0, .close]⟩
    | _ => ⟨.ok ⟨⟩, .ok ⟨⟩, [.exitStatus status, .close]⟩
  command := ⟨.ok ⟨⟩, .ok ⟨⟩, [.exitStatus 0, .close]⟩

theorem plan_tasks (split : ShellSplit) {path dir : String} (parent : Path.parent path = some dir) :
    (tasks path).plan split = .ok (plan path dir) := by
  rw [TaskSet.plan_eq_ok]
  exact ⟨rfl, by simp [tasks, plan, ensures, Task.planned, parent]⟩

theorem kind_touch : fs.kind "touch" = none := by decide

theorem machine_shows {dir : String} {found : Except Report FileType}
    (h : found.toOption = fs.kind dir) (other : fs.which dir = false) :
    (machine found).Shows fs (ensures dir) := by
  intro i ensure listed
  match i, listed with
  | 0, listed =>
      obtain rfl := Option.some.inj listed
      exact ⟨kind_touch.symm, kind_touch.symm, rfl⟩
  | 1, listed =>
      obtain rfl := Option.some.inj listed
      exact ⟨h, h, other.symm⟩
  | i + 2, listed => cases listed

theorem server_shows {dir : String} {status : Nat} (plain : Shell.Unspecial dir)
    (h : fs.run ["test", "-d", dir] = some (status, fs)) :
    (server status).Shows fs (ensures dir) := by
  have answers : ∀ (ensure : Ensure) (status : Nat), Shell.Unspecial ensure.argument →
      fs.run ensure.words = some (status, fs) → ∀ status' fs',
      fs.runLine ensure.checkLine = some (status', fs') →
        ChannelRun.Answers ⟨.ok ⟨⟩, .ok ⟨⟩, [.exitStatus status, .close]⟩ status' := by
    intro ensure status plain run status' fs' ran
    rw [FileSystem.runLine, (checkLine_iff ensure).mpr plain.inert, Option.bind_some, run] at ran
    cases ran
    exact ⟨⟨rfl, rfl⟩, by simp [Decodes, ChannelMsg.ends], rfl⟩
  intro i ensure listed
  cases i with
  | zero =>
      obtain rfl := Option.some.inj listed
      exact answers (.exeExists "touch") 0 (by decide : Shell.Unspecial "touch") rfl
  | succ i =>
      cases i with
      | zero =>
          obtain rfl := Option.some.inj listed
          exact answers (.directoryExists dir) status plain h
      | succ i => cases listed

theorem touchFile_data :
    ChecksContainer disk "data//log" (ensures "data")
        (Effect.outcome (SimpleExecutor.ensureTask (machine (.ok .dir)).probe 0 (ensures "data")
          (.fresh none))) ∧
      ChecksContainer disk "data//log" (ensures "data")
        (Effect.outcome (SshExecutor.ensureTask (server 0).check 0 (ensures "data")
          (.fresh none))) :=
  have found : fs.kind "data" = some .dir := by decide
  have checked : fs.run ["test", "-d", "data"] = some (0, fs) := by
    rw [FileSystem.run, found]
    rfl
  (touchFile_iff (fun _ => .ok []) (tasks "data//log") (plan "data//log" "data") 0 "log" "data//log"
    ["web"] _ (plan_tasks _ (by decide)) rfl rfl disk (· == "touch") (machine (.ok .dir)) (server 0)
    (.fresh none) (.fresh none) rfl rfl (by decide) (by decide)
    (machine_shows found.symm (by decide)) (server_shows (by decide) checked)).mpr (by decide)

/-- A file in the working directory is not created: the check is for the empty path. -/
theorem not_touchFile :
    (tasks "log").plan (fun _ => .ok []) = .ok (plan "log" "") ∧
      (machine missing).Shows fs (ensures "") ∧ (server 1).Shows fs (ensures "") ∧
      ¬ ChecksContainer disk "log" (ensures "")
        (Effect.outcome (SimpleExecutor.ensureTask (machine missing).probe 0 (ensures "")
          (.fresh none))) ∧
      ¬ ChecksContainer disk "log" (ensures "")
        (Effect.outcome (SshExecutor.ensureTask (server 1).check 0 (ensures "")
          (.fresh none))) := by
  have container : disk.ContainerExists "log".toList := ⟨false, rfl, rfl⟩
  have failed : ∀ answer : Except Abort (List Ensure), answer = .ok [.directoryExists ""] →
      ¬ ChecksContainer disk "log" (ensures "") answer := by
    rintro answer rfl ⟨failures, dir, eq, mem, iff⟩
    obtain rfl := Except.ok.inj eq
    obtain rfl : dir = "" := by simpa [ensures] using mem
    exact iff.mpr container List.mem_cons_self
  have checked : fs.run ["test", "-d", ""] = some (1, fs) := rfl
  exact ⟨plan_tasks _ (by decide), machine_shows rfl (by decide), server_shows (by decide) checked,
    failed _ rfl, failed _ rfl⟩

end LogFile

end There
