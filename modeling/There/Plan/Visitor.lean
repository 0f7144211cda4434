import There.Effect.WP
import There.Plan.Basic
import Mathlib.Data.List.DropRight

/-!
# Planning

`TaskSet::plan` visits the tasks in order with a visitor whose state is the list
of tasks planned so far. A command is split by `shell_words::split`, which is not
part of the repository: it is the parameter `split` of everything here.

Two expressions can panic, the index `split[0]` and the `unwrap` of a missing
parent directory. A panic is an outcome of its own, apart from a returned error.
-/

namespace There

/-- `shell_words::split`. -/
abbrev ShellSplit : Type := String → Except Report (List String)

namespace Path

/-- Segments that are not components of a path. -/
def isSkipped (segment : List Char) : Bool := segment == [] || segment == ['.']

/-- The segments up to the last component. -/
def trimRight (segments : List (List Char)) : List (List Char) :=
  segments.rdropWhile isSkipped

def join (segments : List (List Char)) : List Char := ['/'].intercalate segments

/-- `Path::parent`, as text. The path without its last component and without the
separators and current-directory segments before it; nothing for a root or an
empty path. A leading `.` is a component, every other one is skipped. -/
def parent (path : String) : Option String :=
  let segments := path.toList.splitOn '/'
  match segments with
  | [] => none
  | [] :: rest =>
      match trimRight rest with
      | [] => none
      | body => some (String.ofList ('/' :: join (trimRight body.dropLast)))
  | ['.'] :: rest =>
      match trimRight rest with
      | [] => some ""
      | body => some (String.ofList (join (['.'] :: trimRight body.dropLast)))
  | segments =>
      match trimRight segments with
      | [] => none
      | body => some (String.ofList (join (trimRight body.dropLast)))

/-- The path is empty, or has no component behind its root. -/
def EmptyOrRoot (path : String) : Prop :=
  path = "" ∨ ∃ rest, path.toList = '/' :: rest ∧ ∀ segment ∈ rest.splitOn '/', isSkipped segment

theorem trimRight_eq_nil {segments : List (List Char)} :
    trimRight segments = [] ↔ ∀ segment ∈ segments, isSkipped segment := by
  rw [trimRight, List.rdropWhile_eq_nil_iff]

/-- A path has no parent exactly when it is empty or a root. -/
theorem parent_eq_none {path : String} : parent path = none ↔ EmptyOrRoot path := by
  rw [EmptyOrRoot, ← String.toList_inj, String.toList_empty, parent]
  cases path.toList with
  | nil => simp [List.splitOn, trimRight]
  | cons c rest =>
      by_cases slash : c = '/'
      · subst slash
        have split : ('/' :: rest).splitOn '/' = [] :: rest.splitOn '/' := by
          simp [List.splitOn, List.splitOnP_cons_eq_if_modifyHead]
        rw [split]
        simp only [List.cons.injEq, true_and, reduceCtorEq, false_or, exists_eq_left']
        rw [← trimRight_eq_nil]
        cases trimRight (rest.splitOn '/') <;> simp
      · -- The first segment is a component.
        obtain ⟨segment, segments, split⟩ : ∃ segment segments,
            (c :: rest).splitOn '/' = (c :: segment) :: segments := by
          rw [List.splitOn, List.splitOnP_cons_eq_if_modifyHead, if_neg (by simpa using slash)]
          cases h : List.splitOnP (· == '/') rest with
          | nil => exact absurd h (List.splitOnP_ne_nil _ _)
          | cons segment segments => exact ⟨segment, segments, rfl⟩
        have right : ¬ ∃ rest', c :: rest = '/' :: rest' ∧
            ∀ segment ∈ rest'.splitOn '/', isSkipped segment := by
          rintro ⟨_, h, -⟩
          exact slash (List.cons.inj h).1
        rw [split]
        simp only [reduceCtorEq, right, or_false, iff_false]
        split
        · contradiction
        · simp_all
        · split <;> simp
        · have kept : trimRight ((c :: segment) :: segments) ≠ [] := fun h => by
            have skipped := trimRight_eq_nil.mp h _ List.mem_cons_self
            simp_all [isSkipped]
          split
          · contradiction
          · simp

end Path

/-- The index `split[0]` is out of range when the string holds no word. -/
def PlannedTask.fromShellCommand (split : ShellSplit) (name command : String)
    (hosts : List String) : Except Abort PlannedTask :=
  match split command with
  | .error e => .error (.error e)
  | .ok [] => .error (.panic "from_shell_command: split[0]")
  | .ok (head :: rest) => .ok
      { name, ensures := [.exeExists head], command := head :: rest, hosts }

/-- The visitor's state is its plan. -/
abbrev Visiting (α : Type) : Type := EStateM Abort (List PlannedTask) α

namespace PlanningTaskVisitor

def visitTask (split : ShellSplit) (task : Task) : Visiting PUnit :=
  match task with
  | .command name command _ => do
      -- The words of this first split are collected and then not used.
      match split command with
      | .error e => throw (.error e)
      | .ok _ =>
          match PlannedTask.fromShellCommand split name command task.hosts with
          | .error e => throw e
          | .ok planned => modify (· ++ [planned])
  | .createDirectory name path _ =>
      modify (· ++ [{ name, command := ["mkdir", path], ensures := [.directoryExists path],
                      hosts := task.hosts }])
  | .touchFile name path _ =>
      match Path.parent path with
      | none => throw (.panic "visit_task: parent().unwrap()")
      | some parent =>
          modify (· ++ [{ name, command := ["touch", path],
                          ensures := [.exeExists "touch", .directoryExists parent],
                          hosts := task.hosts }])

end PlanningTaskVisitor

def TaskSet.plan (split : ShellSplit) (tasks : TaskSet) : Except Abort Plan :=
  match forM tasks.tasks (PlanningTaskVisitor.visitTask split) [] with
  | .ok _ plan => .ok ⟨tasks.name, plan⟩
  | .error e _ => .error e

/-- The planned task that a visit appends. -/
def Task.planned (split : ShellSplit) : Task → Except Abort PlannedTask
  | .command name line hosts => PlannedTask.fromShellCommand split name line hosts
  | .createDirectory name path hosts => .ok
      { name, command := ["mkdir", path], ensures := [.directoryExists path], hosts }
  | .touchFile name path hosts =>
      match Path.parent path with
      | none => .error (.panic "visit_task: parent().unwrap()")
      | some parent => .ok
          { name, command := ["touch", path],
            ensures := [.exeExists "touch", .directoryExists parent], hosts }

/-- A visit appends exactly one planned task, or leaves the plan as it was. -/
theorem PlanningTaskVisitor.visitTask_eq (split : ShellSplit) (task : Task)
    (plan : List PlannedTask) :
    visitTask split task plan =
      match task.planned split with
      | .ok planned => .ok ⟨⟩ (plan ++ [planned])
      | .error e => .error e plan := by
  cases task with
  | command name command hosts =>
      simp only [visitTask, Task.planned, Task.hosts, PlannedTask.fromShellCommand]
      cases split command with
      | error e => rfl
      | ok words => cases words <;> rfl
  | createDirectory name path hosts => rfl
  | touchFile name path hosts =>
      simp only [visitTask, Task.planned, Task.hosts]
      cases Path.parent path <;> rfl

/-- Planning the task reaches an index or an `unwrap` that fails: a command of no
word, or a file to touch without a parent directory. -/
def Task.Panics (split : ShellSplit) : Task → Prop
  | .command _ line _ => split line = .ok []
  | .createDirectory .. => False
  | .touchFile _ path _ => Path.EmptyOrRoot path

/-- Planning the task returns an error: its command is not split into words. -/
def Task.Rejected (split : ShellSplit) : Task → Prop
  | .command _ line _ => ¬ (split line).isOk
  | .createDirectory .. => False
  | .touchFile .. => False

theorem Task.planned_panics {split : ShellSplit} {task : Task} :
    (∃ site, task.planned split = .error (.panic site)) ↔ task.Panics split := by
  cases task with
  | command name line hosts =>
      simp only [Task.planned, PlannedTask.fromShellCommand, Task.Panics]
      cases split line with
      | error e => simp
      | ok words => cases words <;> simp
  | createDirectory name path hosts => simp [Task.planned, Task.Panics]
  | touchFile name path hosts =>
      rw [Task.Panics, ← Path.parent_eq_none, Task.planned]
      cases Path.parent path <;> simp

/-- A task is planned unless it panics or is rejected. -/
theorem Task.planned_isOk {split : ShellSplit} {task : Task} :
    (task.planned split).isOk ↔ ¬ task.Panics split ∧ ¬ task.Rejected split := by
  cases task with
  | command name line hosts =>
      simp only [Task.planned, PlannedTask.fromShellCommand, Task.Panics, Task.Rejected]
      cases split line with
      | error e => simp
      | ok words => cases words <;> simp
  | createDirectory name path hosts =>
      simp [Task.planned, Task.Panics, Task.Rejected]
  | touchFile name path hosts =>
      rw [Task.Panics, Task.Rejected, ← Path.parent_eq_none, Task.planned]
      cases Path.parent path <;> simp

/-- A planned task is for the hosts of its task, and its command has a first word. -/
theorem Task.planned_eq_ok {split : ShellSplit} {task : Task} {planned : PlannedTask}
    (h : task.planned split = .ok planned) :
    planned.hosts = task.hosts ∧ planned.command ≠ [] := by
  cases task with
  | command name line hosts =>
      simp only [Task.planned, PlannedTask.fromShellCommand] at h
      cases words : split line with
      | error e => simp [words] at h
      | ok ws =>
          rw [words] at h
          cases ws with
          | nil => simp at h
          | cons head rest =>
              obtain rfl : _ = planned := by simpa using h
              exact ⟨rfl, List.cons_ne_nil head rest⟩
  | createDirectory name path hosts =>
      obtain rfl : _ = planned := by simpa [Task.planned] using h
      exact ⟨rfl, List.cons_ne_nil _ _⟩
  | touchFile name path hosts =>
      rw [Task.planned] at h
      cases parent : Path.parent path with
      | none => simp [parent] at h
      | some directory =>
          obtain rfl : _ = planned := by simpa [parent] using h
          exact ⟨rfl, List.cons_ne_nil _ _⟩

/-- Planning is one loop that pushes the planned task of every task. -/
theorem PlanningTaskVisitor.visitTask_eq_push (split : ShellSplit) (task : Task) :
    visitTask split task = Effect.push ((task.planned split).map some) := by
  funext plan
  rw [visitTask_eq]
  cases task.planned split <;> rfl

namespace TaskSet

variable {split : ShellSplit} {tasks : TaskSet}

theorem forM_visitTask (split : ShellSplit) (tasks : TaskSet) :
    forM tasks.tasks (PlanningTaskVisitor.visitTask split) =
      forM tasks.tasks fun task => Effect.push ((task.planned split).map some) :=
  congrArg _ (funext (PlanningTaskVisitor.visitTask_eq_push split))

/-- Planning fails with the error of the first task that cannot be planned. -/
theorem plan_eq_error {e : Abort} :
    tasks.plan split = .error e ↔ ∃ before task after, tasks.tasks = before ++ task :: after ∧
      (∀ t ∈ before, (t.planned split).isOk) ∧ task.planned split = .error e := by
  have outcome : tasks.plan split = .error e ↔ Effect.outcome
      (forM tasks.tasks (PlanningTaskVisitor.visitTask split) []) = .error e := by
    rw [plan]
    cases forM tasks.tasks (PlanningTaskVisitor.visitTask split) [] <;> simp
  have planned : ∀ t : Task, (((t.planned split).map some).isOk ↔ (t.planned split).isOk) ∧
      ((t.planned split).map some = .error e ↔ t.planned split = .error e) := fun t => by
    cases t.planned split <;> simp [Except.map]
  rw [outcome, forM_visitTask, Effect.forM_push_error]
  simp only [planned]

theorem plan_isOk : (tasks.plan split).isOk ↔ ∀ t ∈ tasks.tasks, (t.planned split).isOk := by
  have outcome : (tasks.plan split).isOk ↔ Effect.outcome
      (forM tasks.tasks (PlanningTaskVisitor.visitTask split) []) = .ok ⟨⟩ := by
    rw [plan]
    cases forM tasks.tasks (PlanningTaskVisitor.visitTask split) [] <;>
      simp
  rw [outcome, forM_visitTask, (Effect.forM_push _ _ _).2]
  refine forall_congr' fun t => imp_congr_right fun _ => ?_
  cases t.planned split <;> rfl

/-- A plan consists of the planned tasks of the tasks, in order. -/
theorem plan_blueprint {p : Plan} (h : tasks.plan split = .ok p) :
    p.name = tasks.name ∧
      p.blueprint.map .ok = tasks.tasks.map (Task.planned split) := by
  have pushed : ∀ ts : List Task, (∀ t ∈ ts, (t.planned split).isOk) →
      (Effect.pushed (fun t => (t.planned split).map some) ts).map .ok =
        ts.map (Task.planned split) := by
    intro ts all
    induction ts with
    | nil => rfl
    | cons t ts ih =>
        obtain ⟨head, rest⟩ := List.forall_mem_cons.mp all
        cases ht : t.planned split with
        | error e => simp [ht] at head
        | ok q =>
            rw [Effect.pushed_cons_some (by rw [ht]; rfl), List.map_cons, List.map_cons, ih rest,
              ht]
  have blueprint : p = ⟨tasks.name, Effect.finalState
      (forM tasks.tasks (PlanningTaskVisitor.visitTask split) [])⟩ := by
    rw [plan] at h
    cases run : forM tasks.tasks (PlanningTaskVisitor.visitTask split) [] with
    | error e s => simp [run] at h
    | ok a s => simpa [run] using h.symm
  have planned := plan_isOk.mp (by rw [h]; rfl : (tasks.plan split).isOk)
  subst blueprint
  refine ⟨rfl, ?_⟩
  rw [forM_visitTask, (Effect.forM_push _ _ _).1, List.nil_append]
  exact pushed tasks.tasks planned

end TaskSet

example : Path.parent "/tmp/some-file" = some "/tmp" := by decide

example : ["", "/", "/.", "f", "./f", "a//b/", "//b", "a/./b", "."].map Path.parent =
    [none, none, none, some "", some ".", some "a", some "/", some "a", some ""] := by decide

end There
