import There.Effect.Schedule
import There.Executor.Log

/-!
# In which order an executor acts on its host

Both executors follow a schedule that the plan determines: for each task the ensures
are queried in list order, then the command is issued, then the task is counted. A run
may stop anywhere, because of the host, of the session or of the log channel, whose
receiver may be dropped at any time; it never skips a step, and it issues a command
only if every ensure of its task has passed.
-/

namespace There

open Effect

/-- The event concerns the host or the counter, not the log channel. -/
def Event.acts : Event → Bool
  | sunk _ => false
  | _ => true

/-- What a run does apart from logging. -/
def actions (es : List Event) : List Event := es.filter Event.acts

/-- Neither a command nor an increment of the counter. -/
def Event.Silent (e : Event) : Prop := e.command = none ∧ e ≠ .counted

/-- Logging is no command and is not counted. -/
theorem commands_actions (es : List Event) : commands (actions es) = commands es := by
  rw [commands, commands, actions, List.filterMap_filter]
  refine List.filterMap_congr fun e _ => ?_
  cases e <;> rfl

theorem count_actions (es : List Event) : (actions es).count .counted = es.count .counted :=
  List.count_filter rfl

namespace Record

def actions (s : Record) : List Event := There.actions s.events

/-- `tasks_completed` is the number of its increments. -/
def Counts (s : Record) : Prop := s.tasksCompleted = s.events.count .counted

end Record

/-- The computation follows a schedule of actions, whatever the receiver of the log
channel does. -/
abbrev Performs {α : Type} (p : Exec α) (schedule : List (Step Event)) (value : α → Prop) : Prop :=
  Follows Record.actions Record.Counts p schedule value

namespace Performs

theorem sink (message : PartialLogStream) : Performs (sink message) [] fun _ => True := by
  refine .silent fun s hs => ?_
  rw [WP, There.sink]
  split
  · exact ⟨hs, rfl, fun _ _ => trivial⟩
  · refine ⟨?_, ?_, fun _ _ => trivial⟩
    · simpa [Record.Counts, List.count_append] using hs
    · simp [Record.actions, actions, Event.acts]

theorem emit {e : Event} {guard : Prop} (acts : e.acts) (uncounted : e ≠ .counted) (h : guard) :
    Performs (Exec.emit e) [⟨e, guard⟩] fun _ => True := by
  refine .act h fun s hs => ⟨?_, ?_⟩
  · change s.tasksCompleted = (s.events ++ [e]).count .counted
    rw [List.count_append, List.count_singleton, if_neg (by simpa using uncounted)]
    exact hs
  · change actions (s.events ++ [e]) = _
    simp [Record.actions, actions, acts]

theorem count : Performs Exec.count [⟨.counted, True⟩] fun _ => True := by
  refine .act trivial fun s hs => ⟨?_, ?_⟩
  · change s.tasksCompleted + 1 = (s.events ++ [Event.counted]).count Event.counted
    rw [List.count_append, ← hs]
    rfl
  · change actions (s.events ++ [Event.counted]) = _
    simp [Record.actions, actions, Event.acts]

theorem get : Performs MonadState.get [] fun _ => True :=
  .silent fun _ hs => ⟨hs, rfl, fun _ _ => trivial⟩

theorem ofExcept {α : Type} (r : Except Report α) :
    Performs (Exec.ofExcept r) [] fun a => r = .ok a := by
  cases r with
  | ok a => exact .pure rfl
  | error e => exact .throw []

end Performs

/-- How an executor turns the tasks of a plan into actions. `up` is the condition of
every query, `ready` that of a command. -/
structure Discipline where
  prelude : List (Step Event)
  query : Ensure → Event
  issue : PlannedTask → Event
  up : Prop
  ready : Nat → PlannedTask → Prop
  prelude_silent : ∀ step ∈ prelude, step.event.Silent
  query_silent : ∀ ensure, (query ensure).Silent
  issue_uncounted : ∀ task, issue task ≠ .counted
  issue_command : ∀ k task, ready k task → (issue task).command = some task.command
  ready_up : ∀ k task, ready k task → up

namespace Discipline

variable (d : Discipline)

/-- The steps for the tasks from number `k` on. -/
def tasks : Nat → List PlannedTask → List (Step Event)
  | _, [] => []
  | k, task :: rest =>
      task.ensures.map (fun ensure => ⟨d.query ensure, d.up⟩) ++
        ⟨d.issue task, d.ready k task⟩ :: ⟨.counted, True⟩ :: tasks (k + 1) rest

def schedule (blueprint : List PlannedTask) : List (Step Event) :=
  d.prelude ++ d.tasks 0 blueprint

/-- The actions of a run that is not stopped. -/
def actions (blueprint : List PlannedTask) : List Event :=
  d.prelude.map Step.event ++ blueprint.flatMap fun task =>
    task.ensures.map d.query ++ [d.issue task, .counted]

theorem schedule_event (blueprint : List PlannedTask) :
    (d.schedule blueprint).map Step.event = d.actions blueprint := by
  have tasks : ∀ k, (d.tasks k blueprint).map Step.event = blueprint.flatMap fun task =>
      task.ensures.map d.query ++ [d.issue task, .counted] := by
    induction blueprint with
    | nil => exact fun _ => rfl
    | cons task rest ih =>
        intro k
        simp only [Discipline.tasks, List.map_append, List.map_map, List.map_cons, ih,
          List.flatMap_cons, List.append_assoc, List.cons_append, List.nil_append]
        rfl
  rw [schedule, List.map_append, tasks, actions]

/-- How far the commands have come: `m` of them are issued, those of the first `m`
tasks, and all of them but at most one are counted. -/
structure Paced (k : Nat) (tasks : List PlannedTask) (es : List Event) (m : Nat) : Prop where
  le : m ≤ tasks.length
  commands : commands es = (tasks.take m).map PlannedTask.command
  ready : ∀ i < m, ∀ task ∈ tasks[i]?, d.ready (k + i) task
  lower : es.count .counted ≤ m
  upper : m ≤ es.count .counted + 1

variable {d} {k m : Nat} {task : PlannedTask} {rest blueprint : List PlannedTask}
variable {es es' : List Event}

namespace Paced

theorem silent (h : ∀ e ∈ es, e.Silent) (k : Nat) (blueprint : List PlannedTask) :
    d.Paced k blueprint es 0 where
  le := Nat.zero_le _
  commands := by simpa [There.commands, List.filterMap_eq_nil_iff] using fun e he => (h e he).1
  ready := by simp
  lower := Nat.le_of_eq (List.count_eq_zero.mpr fun hc => (h _ hc).2 rfl)
  upper := Nat.zero_le _

theorem silent_append (h : ∀ e ∈ es, e.Silent) (paced : d.Paced k blueprint es' m) :
    d.Paced k blueprint (es ++ es') m := by
  have before := silent (d := d) h k blueprint
  have uncounted : es.count .counted = 0 := Nat.le_zero.mp before.lower
  refine ⟨paced.le, ?_, paced.ready, ?_, ?_⟩
  · rw [commands_append, before.commands, paced.commands]
    rfl
  · rw [List.count_append, uncounted, Nat.zero_add]
    exact paced.lower
  · rw [List.count_append, uncounted, Nat.zero_add]
    exact paced.upper

/-- The command of a task that has not been counted. -/
theorem issued (ready : d.ready k task) (rest : List PlannedTask) :
    d.Paced k (task :: rest) [d.issue task] 1 := by
  refine ⟨by simp, by simp [There.commands, d.issue_command k task ready], ?_, ?_,
    Nat.le_add_left 1 _⟩
  · intro i hi t ht
    obtain rfl : i = 0 := by omega
    obtain rfl : task = t := by simpa using ht
    exact ready
  · rw [List.count_singleton, if_neg (by simpa using d.issue_uncounted task)]
    exact Nat.zero_le 1

/-- A task that has been counted, and what follows it. -/
theorem counted (ready : d.ready k task) (paced : d.Paced (k + 1) rest es m) :
    d.Paced k (task :: rest) (d.issue task :: .counted :: es) (m + 1) := by
  have first := issued ready rest
  have one : (d.issue task :: .counted :: es).count .counted = es.count .counted + 1 := by
    rw [List.count_cons_of_ne (d.issue_uncounted task), List.count_cons_self]
  refine ⟨Nat.succ_le_succ paced.le, ?_, ?_, ?_, ?_⟩
  · change There.commands ([d.issue task] ++ .counted :: es) = _
    rw [commands_append, first.commands]
    exact congrArg _ paced.commands
  · intro i hi t ht
    cases i with
    | zero => exact first.ready 0 Nat.one_pos t ht
    | succ i =>
        have shift : k + (i + 1) = k + 1 + i := by omega
        rw [shift]
        exact paced.ready i (by omega) t (by simpa using ht)
  · rw [one]
    exact Nat.succ_le_succ paced.lower
  · rw [one]
    exact Nat.succ_le_succ paced.upper

end Paced

theorem silent_of_query {ensures : List Ensure} {taken : List (Step Event)}
    (h : taken <+: ensures.map fun ensure => ⟨d.query ensure, d.up⟩) :
    ∀ e ∈ taken.map Step.event, e.Silent := by
  intro e he
  obtain ⟨step, hs, rfl⟩ := List.mem_map.mp he
  obtain ⟨ensure, -, rfl⟩ := List.mem_map.mp (h.subset hs)
  exact d.query_silent ensure

variable (d) in
theorem silent_queries (ensures : List Ensure) : ∀ e ∈ (ensures.map fun ensure =>
    (⟨d.query ensure, d.up⟩ : Step Event)).map Step.event, e.Silent :=
  silent_of_query List.prefix_rfl

/-- What is taken of the tasks keeps the pace. -/
theorem tasks_paced {taken : List (Step Event)} (h : Taken (d.tasks k blueprint) taken) :
    ∃ m, d.Paced k blueprint (taken.map Step.event) m ∧
      (taken = d.tasks k blueprint → m = blueprint.length) := by
  induction blueprint generalizing k taken with
  | nil =>
      obtain rfl : taken = [] := List.prefix_nil.mp h.first
      exact ⟨0, .silent (by simp) k [], fun _ => rfl⟩
  | cons task rest ih =>
      rcases h.append_cases with within | ⟨taken, rfl, later⟩
      · refine ⟨0, .silent (silent_of_query within.first) k _, fun all => ?_⟩
        have lengths := within.first.length_le
        rw [all] at lengths
        simp only [tasks, List.length_append, List.length_map, List.length_cons] at lengths
        omega
      have queries := d.silent_queries task.ensures
      simp only [tasks, List.map_append, List.append_cancel_left_eq]
      rcases later.cons_cases with rfl | ⟨ready, after, rfl, issued⟩
      · exact ⟨0, (Paced.silent (by simp) k _).silent_append queries, by simp⟩
      rcases issued.cons_cases with rfl | ⟨-, others, rfl, counted⟩
      · exact ⟨1, (Paced.issued ready rest).silent_append queries, by simp⟩
      obtain ⟨m, paced, all⟩ := ih counted
      refine ⟨m + 1, (Paced.counted ready paced).silent_append queries, fun same => ?_⟩
      simpa using all (by simpa using same)

theorem count_tasks (k : Nat) (blueprint : List PlannedTask) :
    ((d.tasks k blueprint).map Step.event).count .counted = blueprint.length := by
  induction blueprint generalizing k with
  | nil => rfl
  | cons task rest ih =>
      have queries := Paced.silent (d := d) (d.silent_queries task.ensures) k rest
      rw [tasks, List.map_append, List.count_append, Nat.le_zero.mp queries.lower, List.map_cons,
        List.map_cons, List.count_cons_of_ne (d.issue_uncounted task), List.count_cons_self, ih]
      simp

theorem up_of_mem_tasks {step : Step Event} (h : step ∈ d.tasks k blueprint)
    (other : step.event ≠ .counted) (guard : step.guard) : d.up := by
  induction blueprint generalizing k with
  | nil => cases h
  | cons task rest ih =>
      rw [tasks, List.mem_append, List.mem_cons, List.mem_cons] at h
      rcases h with queried | rfl | rfl | later
      · obtain ⟨ensure, -, rfl⟩ := List.mem_map.mp queried
        exact guard
      · exact d.ready_up k task guard
      · exact absurd rfl other
      · exact ih later

theorem silent_prelude {taken : List (Step Event)} (first : taken <+: d.prelude) :
    ∀ e ∈ taken.map Step.event, e.Silent := by
  intro e he
  obtain ⟨step, hs, rfl⟩ := List.mem_map.mp he
  exact d.prelude_silent step (first.subset hs)

/-- The beginning of a schedule keeps the pace. -/
theorem schedule_paced {taken : List (Step Event)} (h : Taken (d.schedule blueprint) taken) :
    ∃ m, d.Paced 0 blueprint (taken.map Step.event) m ∧
      (taken = d.schedule blueprint → m = blueprint.length) := by
  rcases h.append_cases with within | ⟨taken, rfl, later⟩
  · refine ⟨0, .silent (silent_prelude within.first) 0 _, fun all => ?_⟩
    have lengths := within.first.length_le
    rw [all, schedule, List.length_append] at lengths
    cases blueprint with
    | nil => rfl
    | cons task rest =>
        simp only [tasks, List.length_append, List.length_cons] at lengths
        omega
  · obtain ⟨m, paced, all⟩ := tasks_paced later
    rw [List.map_append]
    refine ⟨m, paced.silent_append (silent_prelude List.prefix_rfl), fun same => all ?_⟩
    exact List.append_cancel_left same

theorem count_schedule (blueprint : List PlannedTask) :
    ((d.schedule blueprint).map Step.event).count .counted = blueprint.length := by
  have prelude := Paced.silent (d := d) (silent_prelude (d := d) List.prefix_rfl) 0 blueprint
  rw [schedule, List.map_append, List.count_append, Nat.le_zero.mp prelude.lower, count_tasks,
    Nat.zero_add]

end Discipline

/-- The order in which a run has acted on its host. -/
structure OrderedRun (d : Discipline) (blueprint : List PlannedTask) (r : Except Abort Unit)
    (s : Record) : Prop where
  /-- The actions are the first ones of the schedule: ensures in list order, command,
  increment, and then the next task. -/
  order : actions s.events <+: d.actions blueprint
  /-- What comes after the prelude and is not an increment needs the session. -/
  up : ∀ e ∈ actions s.events, e ∉ d.prelude.map Step.event → e ≠ .counted → d.up
  /-- A command was issued only after all ensures of its task had passed. -/
  ready : ∀ k < (commands s.events).length, ∀ task ∈ blueprint[k]?, d.ready k task
  commands : commands s.events <+: blueprint.map PlannedTask.command
  counted : s.tasksCompleted = s.events.count .counted
  /-- At every moment all commands but at most one have been counted. -/
  pace : ∀ es, es <+: s.events → es.count .counted ≤ (There.commands es).length ∧
    (There.commands es).length ≤ es.count .counted + 1
  ok : r = .ok ⟨⟩ → s.tasksCompleted = blueprint.length ∧
    There.commands s.events = blueprint.map PlannedTask.command

/-- A fresh executor that follows the schedule of its plan runs in order, whatever its
log receiver does. -/
theorem Performs.orderedRun {d : Discipline} {blueprint : List PlannedTask} {p : Exec PUnit}
    {value : PUnit → Prop} (h : Performs p (d.schedule blueprint) value) (receiver : Option Nat) :
    OrderedRun d blueprint (outcome (p (.fresh receiver))) (finalState (p (.fresh receiver))) := by
  obtain ⟨counts, taken, took, trace, ok⟩ := h (.fresh receiver) rfl
  generalize finalState (p (.fresh receiver)) = s at counts trace
  have acted : actions s.events = taken.map Step.event := by
    simpa [Record.actions, Record.fresh, actions] using trace
  obtain ⟨m, paced, all⟩ := Discipline.schedule_paced took
  have issued : commands s.events = (blueprint.take m).map PlannedTask.command := by
    rw [← commands_actions, acted, paced.commands]
  have length : (commands s.events).length = m := by
    rw [issued, List.length_map, List.length_take, Nat.min_eq_left paced.le]
  refine ⟨?_, fun e he new other => ?_, fun k lt task listed => ?_, ?_, counts,
    fun es first => ?_, fun hr => ?_⟩
  · rw [acted, ← d.schedule_event]
    exact took.first.map _
  · rw [acted] at he
    obtain ⟨step, hs, rfl⟩ := List.mem_map.mp he
    rcases List.mem_append.mp (took.first.subset hs) with early | task
    · exact absurd (List.mem_map_of_mem early) new
    · exact Discipline.up_of_mem_tasks task other (took.guards step hs)
  · simpa using paced.ready k (by omega) task listed
  · rw [issued]
    exact (List.take_prefix m blueprint).map _
  · -- The actions up to any moment are the beginning of a schedule themselves.
    have within : actions es <+: taken.map Step.event := acted ▸ first.filter _
    rw [List.prefix_iff_eq_take, ← List.map_take] at within
    have earlier := List.take_prefix (actions es).length taken
    have so_far : Taken (d.schedule blueprint) (taken.take (actions es).length) :=
      ⟨earlier.trans took.first, fun step hs => took.guards step (earlier.subset hs)⟩
    obtain ⟨n, paced', -⟩ := Discipline.schedule_paced so_far
    rw [← within] at paced'
    have length' : (commands es).length = n := by
      rw [← commands_actions, paced'.commands, List.length_map, List.length_take,
        Nat.min_eq_left paced'.le]
    rw [← count_actions, length']
    exact ⟨paced'.lower, paced'.upper⟩
  · obtain ⟨rfl, -⟩ := ok _ hr
    refine ⟨?_, ?_⟩
    · rw [counts, ← count_actions, acted, Discipline.count_schedule]
    · rw [issued, all rfl, List.take_length]

end There
