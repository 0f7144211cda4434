import There.Executor.CommandLine

/-!
# Where planning and running can panic

Two expressions of the planner index or unwrap what the input may lack: the first
word of a command, and the parent directory of a file. The local executor indexes
the first word of a planned command once more.

The planner's two sites are reached by exactly the tasks that `Task.Panics` names,
unless a task in front of them is rejected with an error. The executor's site is
never reached by a planned task.
-/

namespace There

namespace Exec

variable {α β : Type}

/-- The computation may fail, but not by a panic. -/
def PanicFree (p : Exec α) : Prop :=
  ∀ s site, Effect.outcome (p s) ≠ .error (.panic site)

namespace PanicFree

theorem pure (a : α) : PanicFree (pure a) := fun _ _ h => by cases h

theorem error (report : Report) : PanicFree (throw (.error report) : Exec α) :=
  fun _ _ h => by cases h

theorem modify (f : Record → Record) : PanicFree (modify f) := fun _ _ h => by cases h

theorem ofExcept (r : Except Report α) : PanicFree (ofExcept r) := by
  cases r with
  | ok a => exact pure a
  | error report => exact error report

theorem sink (message : PartialLogStream) : PanicFree (sink message) := by
  intro s site h
  rw [There.sink] at h
  split at h <;> cases h

theorem bind {p : Exec α} {f : α → Exec β} (first : PanicFree p) (rest : ∀ a, PanicFree (f a)) :
    PanicFree (p >>= f) := by
  intro s site
  have start : Effect.WP p (fun r _ => r ≠ .error (.panic site)) s := first s site
  have composed : Effect.WP (p >>= f) (fun r _ => r ≠ .error (.panic site)) s :=
    start.bind (fun a t _ => rest a t site) (fun e t h => by simpa using h)
  exact composed

theorem get : PanicFree get := fun _ _ h => by cases h

theorem runTasks {body : Nat → PlannedTask → Exec PUnit} (k : Nat) {tasks : List PlannedTask}
    (each : ∀ k, ∀ task ∈ tasks, PanicFree (body k task)) : PanicFree (runTasks body k tasks) := by
  induction tasks generalizing k with
  | nil => exact pure _
  | cons task tasks ih =>
      obtain ⟨first, rest⟩ := And.intro (fun k => each k task List.mem_cons_self)
        fun k t member => each k t (List.mem_cons_of_mem task member)
      exact bind (first k) fun _ => ih (k + 1) rest

end PanicFree

end Exec

namespace SimpleExecutor

theorem ensureTask_panicFree (probe : Nat → Probe) (i : Nat) (ensures : List Ensure) :
    (ensureTask probe i ensures).PanicFree := by
  induction ensures generalizing i with
  | nil => exact .pure _
  | cons ensure ensures ih =>
      refine .bind (.sink _) fun _ => .bind (.modify _) fun _ => .bind (.ofExcept _) fun _ => ?_
      exact .bind (ih (i + 1)) fun _ => .pure _

theorem sinkOutput_panicFree (next : Except Report ByteArray) : (sinkOutput next).PanicFree := by
  cases next with
  | error e => exact .pure _
  | ok bytes =>
      intro s site h
      simp only [sinkOutput] at h
      split at h <;> cases h

theorem waitTurns_panicFree (turns : List Turn) : (waitTurns turns).PanicFree := by
  induction turns with
  | nil => exact .pure _
  | cons turn turns ih =>
      cases turn with
      | stdout next => exact .bind (sinkOutput_panicFree next) fun _ => ih
      | stderr next => exact .bind (sinkOutput_panicFree next) fun _ => ih
      | exhausted => exact .pure _

/-- A command of at least one word is run without a panic. -/
theorem executeTask_panicFree {task : PlannedTask} (ne : task.command ≠ []) (host : LocalTask) :
    (executeTask task host).PanicFree := by
  refine .bind (ensureTask_panicFree _ _ _) fun failedEnsures => ?_
  obtain ⟨cmd, args, command⟩ := List.exists_cons_of_ne_nil ne
  cases failedEnsures with
  | nil =>
      simp only [List.isEmpty_nil, ↓reduceIte, command]
      refine .bind (.ofExcept _) fun _ => .bind (.modify _) fun _ => ?_
      exact .bind (waitTurns_panicFree _) fun _ => .bind (.sink _) fun _ => .modify _
  | cons failure failures => exact .bind (.sink _) fun _ => .error _

theorem execute_panicFree {plan : Plan} (commands : ∀ task ∈ plan.blueprint, task.command ≠ [])
    (machine : LocalHost) : (execute plan machine).PanicFree := by
  refine .bind (.sink _) fun _ => .bind (.sink _) fun _ => .bind (.runTasks 0 ?_) fun _ => ?_
  · exact fun k task member => executeTask_panicFree (commands task member) (machine.task k)
  · exact .bind .get fun _ => .bind (.sink _) fun _ => .bind (.sink _) fun _ => .pure _

end SimpleExecutor

namespace SshExecutor

theorem waitFrames_panicFree (frames : List ChannelMsg) : (waitFrames frames).PanicFree := by
  induction frames with
  | nil => exact .pure _
  | cons m frames ih =>
      obtain ⟨-, run⟩ | ⟨-, -, run⟩ | ⟨-, bytes, -, ⟨-, run⟩ | ⟨text, -, run⟩⟩ :=
        waitFrames_cons m frames <;> rw [run]
      · exact .pure _
      · exact ih
      · exact .error _
      · exact .bind (.sink _) fun _ => ih

theorem executeCommand_panicFree (request : Request) (channel : ChannelRun) :
    (executeCommand request channel).PanicFree :=
  .bind (.ofExcept _) fun _ => .bind (.ofExcept _) fun _ => .bind (.modify _) fun _ =>
    waitFrames_panicFree _

theorem ensureTask_panicFree (check : Nat → ChannelRun) (i : Nat) (ensures : List Ensure) :
    (ensureTask check i ensures).PanicFree := by
  induction ensures generalizing i with
  | nil => exact .pure _
  | cons ensure ensures ih =>
      refine .bind (.sink _) fun _ => .bind (executeCommand_panicFree _ _) fun _ => ?_
      exact .bind (ih (i + 1)) fun _ => .pure _

theorem executeTask_panicFree (task : PlannedTask) (host : SshTask) :
    (executeTask task host).PanicFree := by
  refine .bind (.sink _) fun _ => .bind (ensureTask_panicFree _ _ _) fun failedEnsures => ?_
  cases failedEnsures with
  | nil =>
      exact .bind (.sink _) fun _ => .bind (executeCommand_panicFree _ _) fun _ =>
        .bind (.sink _) fun _ => .pure _
  | cons failure failures => exact .bind (.sink _) fun _ => .error _

/-- The SSH executor indexes nothing, whatever its plan is. -/
theorem execute_panicFree (host : Host) (hostname : String) (plan : Plan) (server : SshHost) :
    (execute host hostname plan server).PanicFree := by
  refine .bind (.sink _) fun _ => .bind (.modify _) fun _ => .bind (.ofExcept _) fun _ => ?_
  refine .bind (.modify _) fun _ => .bind (.ofExcept _) fun authenticated => ?_
  cases authenticated with
  | true =>
      refine .bind (.runTasks 0 ?_) fun _ => ?_
      · exact fun k task _ => .bind (executeTask_panicFree task _) fun _ => .modify _
      · exact .bind .get fun _ => .bind (.sink _) fun _ => .bind (.sink _) fun _ => .pure _
  | false => exact .bind (.sink _) fun _ => .bind (.sink _) fun _ => .error _

end SshExecutor

/-- The commands of a plan that has been made have at least one word. -/
theorem TaskSet.commands_ne_nil {split : ShellSplit} {tasks : TaskSet} {plan : Plan}
    (h : tasks.plan split = .ok plan) : ∀ task ∈ plan.blueprint, task.command ≠ [] := by
  intro task ht
  have planned : Except.ok task ∈ tasks.tasks.map (Task.planned split) := by
    rw [← (plan_blueprint h).2]
    exact List.mem_map_of_mem ht
  obtain ⟨t, -, planned⟩ := List.mem_map.mp planned
  exact (Task.planned_eq_ok planned).2

/-- Neither planning the tasks nor running a planned task can panic. -/
structure TaskSet.PanicFree (split : ShellSplit) (tasks : TaskSet) : Prop where
  plans : ∀ site, tasks.plan split ≠ .error (.panic site)
  commands : ∀ plan, tasks.plan split = .ok plan → ∀ task ∈ plan.blueprint, task.command ≠ []
  runs : ∀ plan, tasks.plan split = .ok plan → ∀ task ∈ plan.blueprint, ∀ host,
    (SimpleExecutor.executeTask task host).PanicFree

/-- Every task that would panic stands behind a task that is rejected. -/
def TaskSet.Guarded (split : ShellSplit) (tasks : TaskSet) : Prop :=
  ∀ before task after, tasks.tasks = before ++ task :: after → task.Panics split →
    ∃ t ∈ before, t.Rejected split

section TaskSet

variable {split : ShellSplit} {tasks : TaskSet}

theorem TaskSet.plan_panics {site : String} (h : tasks.plan split = .error (.panic site)) :
    ¬ tasks.Guarded split := by
  obtain ⟨before, task, after, tasks, planned, failed⟩ := plan_eq_error.mp h
  intro guarded
  obtain ⟨t, ht, rejected⟩ := guarded before task after tasks (Task.planned_panics.mp ⟨_, failed⟩)
  exact (Task.planned_isOk.mp (planned t ht)).2 rejected

/-- The first task that would panic is reached unless a task in front of it is rejected. -/
theorem TaskSet.exists_rejected (safe : ∀ site, tasks.plan split ≠ .error (.panic site))
    {before after : List Task} {task : Task} (listed : tasks.tasks = before ++ task :: after)
    (panics : task.Panics split) : ∃ t ∈ before, t.Rejected split := by
  by_contra! none
  -- By induction on the number of tasks in front, none of them panics either.
  have planned : ∀ t ∈ before, (t.planned split).isOk := by
    intro t ht
    refine Task.planned_isOk.mpr ⟨fun earlier => ?_, none t ht⟩
    obtain ⟨front, rest, rfl⟩ := List.append_of_mem ht
    obtain ⟨u, hu, rejected⟩ := exists_rejected safe
      (by simpa using listed : tasks.tasks = front ++ t :: (rest ++ task :: after)) earlier
    exact none u (List.mem_append_left _ hu) rejected
  obtain ⟨site, failed⟩ := Task.planned_panics.mpr panics
  exact safe site (plan_eq_error.mpr ⟨before, task, after, listed, planned, failed⟩)
termination_by before.length
decreasing_by simp_all

/-- Planning a task set and running its plan cannot panic exactly when every command
of no word, and every file to touch whose path is empty or a root, stands behind a
command that is rejected. -/
theorem TaskSet.panicFree_iff (split : ShellSplit) (tasks : TaskSet) :
    tasks.PanicFree split ↔ tasks.Guarded split := by
  constructor
  · intro safe before task after listed panics
    exact exists_rejected safe.plans listed panics
  · intro guarded
    exact {
      plans := fun site h => plan_panics h guarded
      commands := fun plan h => commands_ne_nil h
      runs := fun plan h task ht host =>
        SimpleExecutor.executeTask_panicFree (commands_ne_nil h task ht) host }

end TaskSet

/-- A command of blanks, and a file to touch at the root. -/
theorem TaskSet.not_panicFree :
    ¬ TaskSet.PanicFree posixSplit ⟨"test", [.command "blank" " " ["localhost"]]⟩ ∧
      ¬ TaskSet.PanicFree posixSplit ⟨"test", [.command "comment" "# later" ["localhost"]]⟩ ∧
      ¬ TaskSet.PanicFree posixSplit ⟨"test", [.touchFile "root" "/" ["localhost"]]⟩ := by
  refine ⟨fun safe => ?_, fun safe => ?_, fun safe => ?_⟩
  · exact safe.plans "from_shell_command: split[0]" (by decide +kernel)
  · exact safe.plans "from_shell_command: split[0]" (by decide +kernel)
  · exact safe.plans "visit_task: parent().unwrap()" (by decide +kernel)

end There
