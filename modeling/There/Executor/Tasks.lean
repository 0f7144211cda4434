import There.Executor.Log
import Mathlib.Order.Interval.Finset.Nat
import Mathlib.Data.Nat.Count

/-!
# Running the tasks of a blueprint in order

Both executors run the tasks of their plan one after the other and return at the
first error. What a host does to task number `k` decides two things: whether the
run reaches the task's command, and whether the task is done, that is executed
without an error. `runTasks` is proved once against these two predicates.
-/

namespace There

/-- The loop of `execute` over the blueprint, from task number `k` on. -/
def runTasks (body : Nat → PlannedTask → Exec PUnit) : Nat → List PlannedTask → Exec PUnit
  | _, [] => pure ⟨⟩
  | k, task :: tasks => do
      body k task
      runTasks body (k + 1) tasks

/-- What holds of each element, which is numbered from `k` on, holds of the first
and of the others. -/
theorem forall_numbered_cons {α : Type} (P : Nat → α → Prop) {k : Nat} {x : α} {xs : List α} :
    (∀ i, ∀ y ∈ (x :: xs)[i]?, P (k + i) y) ↔ P k x ∧ ∀ i, ∀ y ∈ xs[i]?, P (k + 1 + i) y := by
  have shift : ∀ i, k + (i + 1) = k + 1 + i := fun i => by omega
  constructor
  · intro h
    refine ⟨h 0 x rfl, fun i y hy => ?_⟩
    rw [← shift]
    exact h (i + 1) y (by simpa using hy)
  · rintro ⟨first, rest⟩ i y hy
    cases i with
    | zero =>
        obtain rfl : x = y := by simpa using hy
        exact first
    | succ i =>
        rw [shift]
        exact rest i y (by simpa using hy)

/-- One task: its command is issued if the run reaches it, it is counted if it is
done, and the end of the stream is not sent. -/
structure TaskSpec (reaches done : Prop) (task : PlannedTask) (r : Except Abort Unit)
    (es : List Event) : Prop where
  reached : reaches → commands es = [task.command]
  unreached : ¬ reaches → commands es = []
  counted : done → es.count .counted = 1
  uncounted : ¬ done → es.count .counted = 0
  quiet : .«end» ∉ messages es
  ok : r = .ok ⟨⟩ ↔ done

/-- One task up to its increment of the counter: preliminary work, then the event
that issues the command, then its output. -/
structure Attempt (reaches done : Prop) (issue : Event) (r : Except Abort Unit)
    (es : List Event) : Prop where
  reached : reaches → ∃ pre post, Quiet pre ∧ Quiet post ∧ es = pre ++ issue :: post
  unreached : ¬ reaches → Quiet es
  ok : r = .ok ⟨⟩ ↔ done

namespace Attempt

variable {reaches done : Prop} {issue : Event} {task : PlannedTask} {r : Except Abort Unit}
variable {es : List Event}

theorem commands (h : Attempt reaches done issue r es) (hi : issue.command = some task.command)
    (hr : reaches) : commands es = [task.command] := by
  obtain ⟨pre, post, hpre, hpost, rfl⟩ := h.reached hr
  rw [commands_append, hpre.commands, List.nil_append, There.commands, List.filterMap_cons_some hi]
  exact congrArg _ hpost.commands

theorem uncounted (h : Attempt reaches done issue r es) (hi : issue.command = some task.command) :
    es.count .counted = 0 := by
  by_cases hr : reaches
  · obtain ⟨pre, post, hpre, hpost, rfl⟩ := h.reached hr
    have other : issue ≠ .counted := by
      rintro rfl
      cases hi
    rw [List.count_append, List.count_cons_of_ne other, hpre.uncounted, hpost.uncounted]
  · exact (h.unreached hr).uncounted

theorem end_not_mem (h : Attempt reaches done issue r es)
    (hi : issue.command = some task.command) : .«end» ∉ messages es := by
  by_cases hr : reaches
  · obtain ⟨pre, post, hpre, hpost, rfl⟩ := h.reached hr
    have silent : issue.message = none := by
      cases issue <;> first | rfl | cases hi
    rw [messages_append, messages, messages, List.filterMap_cons_none silent, List.mem_append]
    exact not_or.mpr ⟨hpre.end_not_mem, hpost.end_not_mem⟩
  · exact (h.unreached hr).end_not_mem

/-- A task is counted right after an attempt that succeeds. -/
theorem counted (h : Attempt reaches done issue (.ok ⟨⟩) es)
    (hi : issue.command = some task.command) :
    TaskSpec reaches done task (.ok ⟨⟩) (es ++ [.counted]) := by
  have isDone : done := h.ok.mp rfl
  exact {
    reached := fun hr => by rw [commands_append, h.commands hi hr]; rfl
    unreached := fun hr => by rw [commands_append, (h.unreached hr).commands]; rfl
    counted := fun _ => by rw [List.count_append, h.uncounted hi]; rfl
    uncounted := fun hd => absurd isDone hd
    quiet := by
      rw [messages_append, List.mem_append]
      exact not_or.mpr ⟨h.end_not_mem hi, by decide⟩
    ok := by simpa using isDone }

/-- An attempt that fails is not counted. -/
theorem failed {e : Abort} (h : Attempt reaches done issue (.error e) es)
    (hi : issue.command = some task.command) : TaskSpec reaches done task (.error e) es := by
  have notDone : ¬ done := fun hd => by cases h.ok.mpr hd
  exact {
    reached := fun hr => h.commands hi hr
    unreached := fun hr => (h.unreached hr).commands
    counted := fun hd => absurd hd notDone
    uncounted := fun _ => h.uncounted hi
    quiet := h.end_not_mem hi
    ok := by simpa using notDone }

/-- A task that stays before its command has done preliminary work only. -/
theorem early {e : Abort} (quiet : Quiet es) (unreached : ¬ reaches) (imp : done → reaches) :
    Attempt reaches done issue (.error e) es where
  reached := fun h => absurd h unreached
  unreached := fun _ => quiet
  ok := by simpa using fun h => unreached (imp h)

end Attempt

/-- The increment of the counter follows the attempt in the caller. -/
theorem taskSpec_of_attempt {reaches done : Prop} {issue : Event} {task : PlannedTask}
    {body : Exec PUnit} (spec : Emits body (Attempt reaches done issue))
    (hi : issue.command = some task.command) :
    Emits (body >>= fun _ => Exec.count) (TaskSpec reaches done task) := by
  refine Emits.bind spec ?_ ?_
  · rintro ⟨⟩ es h
    exact Emits.count (h.counted hi)
  · intro e es h
    exact h.failed hi

/-- What a run of the tasks has done: `n` tasks are done and `m` commands issued. -/
structure Progress (reaches done : Nat → PlannedTask → Prop) (k : Nat) (tasks : List PlannedTask)
    (es : List Event) (n m : Nat) : Prop where
  le : n ≤ tasks.length
  finished : ∀ i < n, ∀ task ∈ tasks[i]?, done (k + i) task
  stuck : ∀ task ∈ tasks[n]?, ¬ done (k + n) task
  issued : m = n ∨ m = n + 1 ∧ n < tasks.length
  reached : ∀ task ∈ tasks[n]?, (reaches (k + n) task ↔ m = n + 1)
  commands : commands es = (tasks.take m).map PlannedTask.command
  counted : es.count .counted = n

section Run

variable {reaches done : Nat → PlannedTask → Prop} {body : Nat → PlannedTask → Exec PUnit}
variable {k n m : Nat} {task : PlannedTask} {tasks : List PlannedTask} {es es' : List Event}

namespace Progress

theorem nil (k : Nat) : Progress reaches done k [] [] 0 0 where
  le := Nat.le_refl 0
  finished := by simp
  stuck := by simp
  issued := .inl rfl
  reached := by simp
  commands := rfl
  counted := rfl

/-- A task that is done is followed by the run of the remaining tasks. -/
theorem cons (first : TaskSpec (reaches k task) (done k task) task (.ok ⟨⟩) es)
    (imp : done k task → reaches k task) (rest : Progress reaches done (k + 1) tasks es' n m) :
    Progress reaches done k (task :: tasks) (es ++ es') (n + 1) (m + 1) := by
  have isDone : done k task := first.ok.mp rfl
  have shift : ∀ i, k + (i + 1) = k + 1 + i := fun i => by omega
  exact {
    le := by simpa using rest.le
    finished := by
      intro i hi t ht
      cases i with
      | zero =>
          obtain rfl : task = t := by simpa using ht
          exact isDone
      | succ i =>
          rw [shift]
          exact rest.finished i (by omega) t (by simpa using ht)
    stuck := by
      intro t ht
      rw [shift]
      exact rest.stuck t (by simpa using ht)
    issued := by
      rw [List.length_cons]
      have := rest.issued
      omega
    reached := by
      intro t ht
      rw [shift, rest.reached t (by simpa using ht)]
      omega
    commands := by
      rw [commands_append, first.reached (imp isDone), rest.commands]
      rfl
    counted := by
      rw [List.count_append, first.counted isDone, rest.counted]
      omega }

/-- A task that fails ends the run; its command may have been issued. -/
theorem failed (tasks : List PlannedTask) {e : Abort}
    (first : TaskSpec (reaches k task) (done k task) task (.error e) es) :
    ∃ m, Progress reaches done k (task :: tasks) es 0 m := by
  have notDone : ¬ done k task := fun h => by cases first.ok.mpr h
  by_cases hr : reaches k task
  · refine ⟨1, Nat.zero_le _, by simp, ?_, .inr ⟨rfl, by simp⟩, ?_, ?_, first.uncounted notDone⟩
    · rintro t ⟨⟩
      exact notDone
    · rintro t ⟨⟩
      exact ⟨fun _ => rfl, fun _ => hr⟩
    · simpa using first.reached hr
  · refine ⟨0, Nat.zero_le _, by simp, ?_, .inl rfl, ?_, ?_, first.uncounted notDone⟩
    · rintro t ⟨⟩
      exact notDone
    · rintro t ⟨⟩
      simpa using hr
    · simpa using first.unreached hr

/-- A run that never starts on its tasks. -/
theorem none (silent : There.commands es = []) (uncounted : es.count .counted = 0)
    (blocked : ∀ i task, ¬ reaches i task) (imp : ∀ i task, done i task → reaches i task) :
    Progress reaches done k tasks es 0 0 where
  le := Nat.zero_le _
  finished := by simp
  stuck := fun task _ hd => blocked _ task (imp _ task hd)
  issued := .inl rfl
  reached := fun task _ => by simpa using blocked _ task
  commands := by simpa using silent
  counted := uncounted

/-- Only the commands and the increments among the events matter. -/
theorem congr (h : Progress reaches done k tasks es n m)
    (commands : There.commands es' = There.commands es)
    (counted : es'.count .counted = es.count .counted) :
    Progress reaches done k tasks es' n m :=
  { h with
    commands := by rw [commands, h.commands]
    counted := by rw [counted, h.counted] }

/-- All tasks are done exactly when each of them is. -/
theorem complete_iff (h : Progress reaches done k tasks es n m) :
    n = tasks.length ↔ ∀ i, ∀ task ∈ tasks[i]?, done (k + i) task := by
  constructor
  · rintro rfl i task ht
    exact h.finished i (List.getElem?_eq_some_iff.mp ht).1 task ht
  · intro all
    by_contra ne
    have lt : n < tasks.length := Nat.lt_of_le_of_ne h.le ne
    exact h.stuck tasks[n] (List.getElem?_eq_getElem lt) (all n _ (List.getElem?_eq_getElem lt))

/-- The command of a task is issued exactly when the tasks before it are done and
the run reaches it. -/
theorem issued_iff (h : Progress reaches done k tasks es n m)
    (imp : ∀ i task, done i task → reaches i task) {i : Nat} (ht : tasks[i]? = some task) :
    i < m ↔ (∀ j < i, ∀ t ∈ tasks[j]?, done (k + j) t) ∧ reaches (k + i) task := by
  have hi : i < tasks.length := (List.getElem?_eq_some_iff.mp ht).1
  constructor
  · intro lt
    refine ⟨fun j hj => h.finished j (by have := h.issued; omega), ?_⟩
    rcases Nat.lt_or_ge i n with before | at'
    · exact imp _ _ (h.finished i before task ht)
    · obtain rfl : i = n := by
        have := h.issued
        omega
      exact (h.reached task ht).mpr (by have := h.issued; omega)
  · rintro ⟨all, reach⟩
    rcases Nat.lt_trichotomy i n with before | rfl | after
    · have := h.issued
      omega
    · have := (h.reached task ht).mp reach
      omega
    · have hn : n < tasks.length := by omega
      exact absurd (all n after _ (List.getElem?_eq_getElem hn))
        (h.stuck _ (List.getElem?_eq_getElem hn))

end Progress

/-- A run of the tasks makes progress up to the first task that is not done. -/
theorem runTasks_emits (spec : ∀ k task, Emits (body k task)
      (TaskSpec (reaches k task) (done k task) task))
    (imp : ∀ k task, done k task → reaches k task) (k : Nat) (tasks : List PlannedTask) :
    Emits (runTasks body k tasks) fun r es => .«end» ∉ messages es ∧
      ∃ n m, Progress reaches done k tasks es n m ∧ (r = .ok ⟨⟩ ↔ n = tasks.length) := by
  induction tasks generalizing k with
  | nil => exact Emits.pure ⟨List.not_mem_nil, 0, 0, Progress.nil k, by simp⟩
  | cons task tasks ih =>
      refine Emits.bind (spec k task) ?_ ?_
      · rintro ⟨⟩ es first
        refine (ih (k + 1)).mono ?_
        rintro r es' ⟨quiet, n, m, rest, ok⟩
        refine ⟨?_, n + 1, m + 1, Progress.cons first (imp k task) rest, by simpa using ok⟩
        rw [messages_append, List.mem_append]
        exact not_or.mpr ⟨first.quiet, quiet⟩
      · intro e es first
        obtain ⟨m, h⟩ := Progress.failed tasks first
        exact ⟨first.quiet, 0, m, h, by simp⟩

end Run

/-- The stream is closed once: one end, after every other message. -/
def EndsStream (es : List Event) : Prop :=
  ∃ logs, messages es = logs ++ [.«end»] ∧ .«end» ∉ logs

theorem endsStream_append {es : List Event} {logs : Logs} (quiet : .«end» ∉ messages es) :
    EndsStream (es ++ [.sunk (.next logs), .sunk .«end»]) :=
  ⟨messages es ++ [.next logs], by simp, by simpa using quiet⟩

/-- A log batch in front changes nothing. -/
theorem endsStream_next {es : List Event} {logs : Logs} (h : EndsStream es) :
    EndsStream (.sunk (.next logs) :: es) := by
  obtain ⟨before, h, quiet⟩ := h
  exact ⟨.next logs :: before, by rw [messages_sunk, h]; rfl, by simpa using quiet⟩

theorem not_endsStream {es : List Event} (quiet : .«end» ∉ messages es) : ¬ EndsStream es := by
  rintro ⟨logs, h, -⟩
  rw [h] at quiet
  exact quiet (by simp)

/-- A call of `execute`: it may never start on the tasks, and then it may have
been refused by the host. The end of the stream is sent in two cases only. -/
structure Applied (started refused : Prop) (reaches done : Nat → PlannedTask → Prop)
    (blueprint : List PlannedTask) (r : Except Abort Unit) (es : List Event) (n m : Nat) :
    Prop where
  progress : Progress reaches done 0 blueprint es n m
  ok : r = .ok ⟨⟩ ↔ started ∧ n = blueprint.length
  ended : refused ∨ r = .ok ⟨⟩ → EndsStream es
  unended : ¬ (refused ∨ r = .ok ⟨⟩) → .«end» ∉ messages es

/-- An executor sends nothing after the end of the stream. -/
theorem Applied.end_last {started refused : Prop} {reaches done : Nat → PlannedTask → Prop}
    {blueprint : List PlannedTask} {r : Except Abort Unit} {es : List Event} {n m : Nat}
    (h : Applied started refused reaches done blueprint r es n m)
    {before after : List PartialLogStream} (split : messages es = before ++ .«end» :: after) :
    after = [] := by
  by_cases ends : refused ∨ r = .ok ⟨⟩
  · obtain ⟨logs, hm, quiet⟩ := h.ended ends
    rw [hm] at split
    rcases List.append_eq_append_iff.mp split with ⟨as, rfl, hl⟩ | ⟨bs, rfl, hr⟩
    · cases as with
      | nil => simpa using hl.symm
      | cons x xs => simp at hl
    · cases bs with
      | nil => simpa using hr
      | cons x xs =>
          obtain ⟨rfl, -⟩ : .«end» = x ∧ after = xs ++ [.«end»] := by simpa using hr
          exact absurd (List.mem_append_right before List.mem_cons_self) quiet
  · refine absurd ?_ (h.unended ends)
    rw [split]
    exact List.mem_append_right before List.mem_cons_self

end There
