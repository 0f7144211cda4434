import There.Plan.Visitor
import Mathlib.Data.List.Forall2

/-!
# Planning as a translation

The visitor is stateful, but its state only grows: a plan that succeeds is the list
of the planned tasks, one for each task and in order. So planning distributes over
appending task lists, and it fails for the sake of one task.
-/

namespace There

/-- A command whose string is not split into words. -/
def Task.Unsplit (split : ShellSplit) (task : Task) : Prop :=
  ∃ name line hosts e, task = .command name line hosts ∧ split line = .error e

/-- What a planned task says about its task. -/
def Task.PlannedAs (split : ShellSplit) (task : Task) (planned : PlannedTask) : Prop :=
  planned.name = task.name ∧ planned.hosts = task.hosts ∧
    ∀ name line hosts, task = .command name line hosts →
      ∃ head rest, split line = .ok (head :: rest) ∧ planned.command = head :: rest ∧
        planned.ensures = [.exeExists head]

section Tasks

variable {split : ShellSplit} {task : Task}

theorem PlannedTask.fromShellCommand_eq_ok {name line : String} {hosts : List String}
    {planned : PlannedTask} (h : fromShellCommand split name line hosts = .ok planned) :
    ∃ head rest, split line = .ok (head :: rest) ∧
      planned = { name, ensures := [.exeExists head], command := head :: rest, hosts } := by
  rw [fromShellCommand] at h
  split at h
  · contradiction
  · contradiction
  · rename_i head rest words
    exact ⟨head, rest, words, by simpa using h.symm⟩

theorem Task.planned_plannedAs {planned : PlannedTask} (h : task.planned split = .ok planned) :
    task.PlannedAs split planned := by
  cases task with
  | command name line hosts =>
      obtain ⟨head, rest, words, rfl⟩ := PlannedTask.fromShellCommand_eq_ok h
      refine ⟨rfl, rfl, fun _ _ _ eq => ?_⟩
      cases eq
      exact ⟨head, rest, words, rfl, rfl⟩
  | createDirectory name path hosts =>
      obtain rfl : _ = planned := by simpa [Task.planned] using h
      exact ⟨rfl, rfl, by simp⟩
  | touchFile name path hosts =>
      rw [Task.planned] at h
      cases parent : Path.parent path with
      | none => simp [parent] at h
      | some directory =>
          obtain rfl : _ = planned := by simpa [parent] using h
          exact ⟨rfl, rfl, by simp⟩

/-- Only a command that is not split makes planning return an error. -/
theorem Task.planned_eq_error {e : Report} (h : task.planned split = .error (.error e)) :
    task.Unsplit split := by
  cases task with
  | command name line hosts =>
      rw [Task.planned, PlannedTask.fromShellCommand] at h
      split at h
      · rename_i e' words
        exact ⟨name, line, hosts, e', rfl, words⟩
      · simp at h
      · contradiction
  | createDirectory name path hosts => simp [planned] at h
  | touchFile name path hosts =>
      rw [Task.planned] at h
      split at h <;> simp at h

theorem Task.Unsplit.not_isOk (unsplit : task.Unsplit split) : ¬ (task.planned split).isOk := by
  obtain ⟨name, line, hosts, e, rfl, words⟩ := unsplit
  simp [planned, PlannedTask.fromShellCommand, words]

end Tasks

namespace TaskSet

variable {split : ShellSplit} {name : String} {tasks before after : List Task} {p : Plan}

/-- A plan is the list of the planned tasks, and nothing else is. -/
theorem plan_eq_ok {tasks : TaskSet} :
    tasks.plan split = .ok p ↔
      p.name = tasks.name ∧ p.blueprint.map .ok = tasks.tasks.map (Task.planned split) := by
  refine ⟨plan_blueprint, fun ⟨named, blueprint⟩ => ?_⟩
  have planned : ∀ task ∈ tasks.tasks, (task.planned split).isOk := fun task mem => by
    obtain ⟨q, -, eq⟩ := List.mem_map.mp (blueprint ▸ List.mem_map_of_mem mem)
    rw [← eq]
    rfl
  cases result : tasks.plan split with
  | error e =>
      have isOk := plan_isOk.mpr planned
      simp [result] at isOk
  | ok q =>
      obtain ⟨named', blueprint'⟩ := plan_blueprint result
      have same : q.blueprint = p.blueprint :=
        List.map_injective_iff.mpr (fun _ _ => Except.ok.inj) (blueprint'.trans blueprint.symm)
      exact congrArg _ (Plan.mk.injEq .. |>.mpr ⟨named'.trans named.symm, same⟩)

theorem plan_append_isOk (name : String) (before after : List Task) :
    (plan split ⟨name, before ++ after⟩).isOk ↔
      (plan split ⟨name, before⟩).isOk ∧ (plan split ⟨name, after⟩).isOk := by
  simp only [plan_isOk, List.forall_mem_append]

/-- The plan of two task lists is made of the plans of the two. -/
theorem plan_append (h : plan split ⟨name, before ++ after⟩ = .ok p) :
    ∃ p₁ p₂, plan split ⟨name, before⟩ = .ok p₁ ∧ plan split ⟨name, after⟩ = .ok p₂ ∧
      p.blueprint = p₁.blueprint ++ p₂.blueprint := by
  obtain ⟨-, blueprint⟩ := plan_eq_ok.mp h
  rw [List.map_append, List.map_eq_append_iff] at blueprint
  obtain ⟨blueprint₁, blueprint₂, eq, first, second⟩ := blueprint
  exact ⟨⟨name, blueprint₁⟩, ⟨name, blueprint₂⟩, plan_eq_ok.mpr ⟨rfl, first⟩,
    plan_eq_ok.mpr ⟨rfl, second⟩, eq⟩

/-- One planned task for each task, in order. -/
theorem plan_plannedAs (h : plan split ⟨name, tasks⟩ = .ok p) :
    p.name = name ∧ List.Forall₂ (Task.PlannedAs split) tasks p.blueprint := by
  obtain ⟨named, blueprint⟩ := plan_eq_ok.mp h
  refine ⟨named, ?_⟩
  rw [eq_comm, ← List.forall₂_eq_eq_eq, List.forall₂_map_left_iff, List.forall₂_map_right_iff]
    at blueprint
  exact blueprint.imp fun _ _ => Task.planned_plannedAs

/-- Without a panic, planning returns an error exactly when a command is not split. -/
theorem plan_fails_iff (quiet : ∀ task ∈ tasks, ¬ task.Panics split) :
    (∃ e, plan split ⟨name, tasks⟩ = .error (.error e)) ↔ ∃ task ∈ tasks, task.Unsplit split := by
  constructor
  · rintro ⟨e, failed⟩
    obtain ⟨_, task, _, eq, -, failed⟩ := plan_eq_error.mp failed
    exact ⟨task, by simp_all, Task.planned_eq_error failed⟩
  · rintro ⟨task, mem, unsplit⟩
    cases result : plan split ⟨name, tasks⟩ with
    | ok p =>
        have isOk : (plan split ⟨name, tasks⟩).isOk := by
          rw [result]
          rfl
        exact absurd (plan_isOk.mp isOk task mem) unsplit.not_isOk
    | error e =>
        cases e with
        | error e => exact ⟨e, rfl⟩
        | panic site =>
            obtain ⟨_, task, _, eq, -, panicked⟩ := plan_eq_error.mp result
            have mem : task ∈ tasks := by
              rw [show tasks = _ from eq]
              simp
            exact absurd (Task.planned_panics.mp ⟨site, panicked⟩) (quiet task mem)

/-- What is expected of planning a list of tasks that is cut in two. -/
structure Translates (split : ShellSplit) (name : String) (before after : List Task) : Prop where
  isOk : (plan split ⟨name, before ++ after⟩).isOk ↔
    (plan split ⟨name, before⟩).isOk ∧ (plan split ⟨name, after⟩).isOk
  append : ∀ p, plan split ⟨name, before ++ after⟩ = .ok p →
    ∃ p₁ p₂, plan split ⟨name, before⟩ = .ok p₁ ∧ plan split ⟨name, after⟩ = .ok p₂ ∧
      p.blueprint = p₁.blueprint ++ p₂.blueprint
  plannedAs : ∀ p, plan split ⟨name, before ++ after⟩ = .ok p →
    p.name = name ∧ List.Forall₂ (Task.PlannedAs split) (before ++ after) p.blueprint
  fails : (∃ e, plan split ⟨name, before ++ after⟩ = .error (.error e)) ↔
    ∃ task ∈ before ++ after, task.Unsplit split

theorem plan_translates (split : ShellSplit) (name : String) (before after : List Task)
    (quiet : ∀ task ∈ before ++ after, ¬ task.Panics split) :
    Translates split name before after where
  isOk := plan_append_isOk name before after
  append _ h := plan_append h
  plannedAs _ h := plan_plannedAs h
  fails := plan_fails_iff quiet

/-- `shell_words::split` on two lines, the second of which leaves a quote open. -/
def twoLines : ShellSplit := fun line =>
  if line = "echo hello" then .ok ["echo", "hello"] else .error (.msg "missing closing quote")

theorem plan_translates_echo :
    (∀ task ∈ [.command "test" "echo hello" [], .touchFile "test" "/tmp/f" []] ++
      [.command "open" "echo 'hello" []], ¬ Task.Panics twoLines task) ∧
    Translates twoLines "test" [.command "test" "echo hello" [], .touchFile "test" "/tmp/f" []]
      [.command "open" "echo 'hello" []] := by
  have quiet : ∀ task ∈ [.command "test" "echo hello" [], .touchFile "test" "/tmp/f" []] ++
      [.command "open" "echo 'hello" []], ¬ Task.Panics twoLines task := by
    have split : twoLines "echo hello" ≠ .ok [] ∧ twoLines "echo 'hello" ≠ .ok [] := by decide
    have parent : ¬ Path.EmptyOrRoot "/tmp/f" := fun h =>
      absurd (Path.parent_eq_none.mpr h) (by decide)
    simpa [Task.Panics] using ⟨split.1, parent, split.2⟩
  exact ⟨quiet, plan_translates twoLines "test" _ _ quiet⟩

end TaskSet

end There
