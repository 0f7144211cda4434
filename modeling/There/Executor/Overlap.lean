import There.Executor.Failures
import There.Executor.Wait

/-!
# The processes of a plan

A run of the local executor with the processes that it has started, which go on by
themselves. The executor spawns a child for each task, waits for it in the loop, and then
counts the task. It may stop with an error wherever it is not in the loop; its children
are not killed then.

How far the run gets is what the run of the executor as a function says.
-/

namespace There

open Concurrent Posix

/-- `execute` of a fresh local executor, with the children that it has spawned so far, in
order. What they do is up to them: of `machine` it is the answers to the ensures and the
spawns that count here. -/
structure LocalRun where
  plan : Plan
  machine : LocalHost
  waits : List Wait := []
  tasksCompleted : Nat := 0
  stopped : Bool := false

namespace LocalRun

inductive Action where
  | spawn
  /-- A step of the wait loop that the executor is in. -/
  | wait (act : Wait.Action)
  | count
  /-- The executor returns an error. -/
  | stop
  /-- A child takes a step, waited for or not. -/
  | child (k : Nat) (act : Process.Action LocalStream)

/-- The child that the executor waits for. -/
def current (s : LocalRun) : Option Wait := s.waits[s.tasksCompleted]?

/-- A step of child number `k`, or of the loop that waits for it. -/
def waitStep (s : LocalRun) (k : Nat) (act : Wait.Action) : Option LocalRun :=
  s.waits[k]?.bind fun w => (w.step act).map fun w => { s with waits := s.waits.set k w }

def step (s : LocalRun) : Action → Option LocalRun
  | .spawn =>
      match s.plan.blueprint[s.tasksCompleted]? with
      | some task =>
          if s.stopped = false ∧ s.waits.length = s.tasksCompleted ∧
              s.machine.Reaches s.tasksCompleted task then
            some { s with waits := s.waits ++ [{}] }
          else none
      | none => none
  | .wait act => if s.stopped then none else s.waitStep s.tasksCompleted act
  | .count =>
      match s.stopped, s.current with
      | false, some w =>
          if w.phase = .left then some { s with tasksCompleted := s.tasksCompleted + 1 } else none
      | _, _ => none
  | .stop => if s.current.all (·.phase = .left) then some { s with stopped := true } else none
  | .child k act => s.waitStep k (.child act)

def new (plan : Plan) (machine : LocalHost) : LocalRun := { plan, machine }

/-- The process of a task has exited once the task is counted, and before the process of
the next one is spawned. -/
def Sequential (s : LocalRun) : Prop :=
  ∀ k w, s.waits[k]? = some w → k < s.tasksCompleted ∨ k + 1 < s.waits.length → w.child.exited

/-- When the executor leaves the loop because both streams have ended, or because
`try_wait` fails, the child has exited all the same. -/
def LeavesExited (s : LocalRun) : Action → Prop
  | .wait .tryWaitFails | .wait .exhausted => ∀ w ∈ s.current, w.child.exited
  | _ => True

end LocalRun

namespace Wait

variable {s t : Wait} {act : Action}

/-- An executor that is out of the loop stays out of it. -/
theorem left_step (h : s.step act = some t) (left : s.phase = .left) : t.phase = .left := by
  cases step_moves h with
  | child => exact left
  | waits polling | exits polling | fails polling => cases left.symm.trans polling
  | reads selecting | readFails selecting | none selecting | exhausted selecting =>
      cases left.symm.trans selecting

/-- A process that has exited has done so for good. -/
theorem exited_step (h : s.step act = some t) (exited : s.child.exited) : t.child.exited := by
  cases step_moves h with
  | child stepped =>
      rw [Process.running_of_step stepped] at exited
      cases exited
  | reads _ read =>
      obtain ⟨_, -, eq⟩ := Option.map_eq_some_iff.mp read
      obtain ⟨-, rfl⟩ := Prod.mk.inj eq
      exact exited
  | _ => exact exited

/-- The loop is left with the child gone, or by one of the two other exits. -/
theorem leaves (h : s.step act = some t) (going : s.phase ≠ .left) (left : t.phase = .left) :
    t.child.exited ∨ (act = .tryWaitFails ∨ act = .exhausted) ∧ t.child = s.child := by
  cases step_moves h with
  | child => exact absurd left going
  | exits _ exited => exact .inl exited
  | fails => exact .inr ⟨.inl rfl, rfl⟩
  | exhausted => exact .inr ⟨.inr rfl, rfl⟩
  | waits | reads | readFails | none => cases left

/-- These two exits do not look at the child. -/
theorem left_of_step (h : s.step act = some t) (other : act = .tryWaitFails ∨ act = .exhausted) :
    t.phase = .left ∧ t.child = s.child := by
  rcases other with rfl | rfl
  · cases step_moves h
    exact ⟨rfl, rfl⟩
  · cases step_moves h
    exact ⟨rfl, rfl⟩

end Wait

namespace LocalRun

variable {plan : Plan} {machine : LocalHost} {s t : LocalRun}

/-- What the steps do, with what later proofs need of their guards. -/
inductive Moves (s : LocalRun) : Action → LocalRun → Prop where
  | spawn {task : PlannedTask} : s.plan.blueprint[s.tasksCompleted]? = some task →
      s.waits.length = s.tasksCompleted → s.machine.Reaches s.tasksCompleted task →
      Moves s .spawn { s with waits := s.waits ++ [{}] }
  | wait {act : Wait.Action} {w w' : Wait} : s.stopped = false →
      s.waits[s.tasksCompleted]? = some w → w.step act = some w' →
      Moves s (.wait act) { s with waits := s.waits.set s.tasksCompleted w' }
  | count {w : Wait} : s.waits[s.tasksCompleted]? = some w → w.phase = .left →
      Moves s .count { s with tasksCompleted := s.tasksCompleted + 1 }
  | stop : Moves s .stop { s with stopped := true }
  | child {k : Nat} {act : Process.Action LocalStream} {w w' : Wait} : s.waits[k]? = some w →
      w.step (.child act) = some w' → Moves s (.child k act) { s with waits := s.waits.set k w' }

theorem waitStep_eq_some {k : Nat} {act : Wait.Action} (h : s.waitStep k act = some t) :
    ∃ w w', s.waits[k]? = some w ∧ w.step act = some w' ∧
      t = { s with waits := s.waits.set k w' } := by
  obtain ⟨w, here, h⟩ := Option.bind_eq_some_iff.mp h
  obtain ⟨w', stepped, rfl⟩ := Option.map_eq_some_iff.mp h
  exact ⟨w, w', here, stepped, rfl⟩

theorem step_moves {act : Action} (h : s.step act = some t) : s.Moves act t := by
  cases act with
  | spawn =>
      simp only [step] at h
      split at h
      · split at h
        · rename_i guard
          cases h
          exact .spawn ‹_› guard.2.1 guard.2.2
        · cases h
      · cases h
  | wait act =>
      simp only [step] at h
      split at h
      · cases h
      · obtain ⟨w, w', here, stepped, rfl⟩ := waitStep_eq_some h
        exact .wait (by simpa using ‹¬ s.stopped = true›) here stepped
  | count =>
      simp only [step] at h
      split at h
      · split at h <;> cases h
        exact .count ‹_› ‹_›
      · cases h
  | stop =>
      simp only [step] at h
      split at h <;> cases h
      exact .stop
  | child k act =>
      obtain ⟨w, w', here, stepped, rfl⟩ := waitStep_eq_some h
      exact .child here stepped

/-- The child at a position after a step of one of them. -/
theorem getElem?_set_cases {waits : List Wait} {k j : Nat} {w v : Wait}
    (h : (waits.set k w)[j]? = some v) : j = k ∧ v = w ∨ j ≠ k ∧ waits[j]? = some v := by
  by_cases same : k = j
  · subst same
    rw [List.getElem?_set_self'] at h
    obtain ⟨_, -, rfl⟩ := Option.map_eq_some_iff.mp h
    exact .inl ⟨rfl, rfl⟩
  · rw [List.getElem?_set_ne same] at h
    exact .inr ⟨Ne.symm same, h⟩

/-- One child at most is not counted yet, and those that are counted are waited for no more. -/
structure Inv (s : LocalRun) : Prop where
  counted_le : s.tasksCompleted ≤ s.waits.length
  length_le : s.waits.length ≤ s.tasksCompleted + 1
  left : ∀ k w, s.waits[k]? = some w → k < s.tasksCompleted → w.phase = .left
  reached : ∀ k < s.waits.length, ∃ task,
    s.plan.blueprint[k]? = some task ∧ s.machine.Reaches k task

theorem Inv.new (plan : Plan) (machine : LocalHost) : (new plan machine).Inv where
  counted_le := Nat.le_refl 0
  length_le := Nat.zero_le _
  left := by simp [LocalRun.new]
  reached := by simp [LocalRun.new]

/-- A child that takes a step, or is waited for. -/
theorem Inv.waitStep {k : Nat} {act : Wait.Action} {w w' : Wait} (inv : s.Inv)
    (here : s.waits[k]? = some w) (stepped : w.step act = some w') :
    Inv { s with waits := s.waits.set k w' } where
  counted_le := by simpa using inv.counted_le
  length_le := by simpa using inv.length_le
  left j v at' lt := by
    obtain ⟨rfl, rfl⟩ | ⟨-, at'⟩ := getElem?_set_cases at'
    · exact Wait.left_step stepped (inv.left j w here lt)
    · exact inv.left j v at' lt
  reached := by simpa using inv.reached

theorem Inv.step {act : Action} (inv : s.Inv) (h : s.step act = some t) : t.Inv := by
  cases step_moves h with
  | @spawn task listed all reaches =>
      refine ⟨?_, ?_, fun k w at' lt => ?_, fun k lt => ?_⟩
      · simp [all]
      · simp [all]
      · have below : k < s.waits.length := all ▸ lt
        rw [List.getElem?_append_left below] at at'
        exact inv.left k w at' lt
      · rw [List.length_append, List.length_singleton] at lt
        obtain lt | rfl := Nat.lt_succ_iff_lt_or_eq.mp lt
        · exact inv.reached k lt
        · rw [all]
          exact ⟨task, listed, reaches⟩
  | wait _ here stepped => exact inv.waitStep here stepped
  | @count w here left =>
      have lt : s.tasksCompleted < s.waits.length := (List.getElem?_eq_some_iff.mp here).1
      refine ⟨lt, Nat.le_succ_of_le inv.length_le, fun k v at' le => ?_, inv.reached⟩
      obtain lt | rfl := Nat.lt_succ_iff_lt_or_eq.mp le
      · exact inv.left k v at' lt
      · obtain rfl := Option.some.inj (here.symm.trans at')
        exact left
  | stop => exact ⟨inv.counted_le, inv.length_le, inv.left, inv.reached⟩
  | child here stepped => exact inv.waitStep here stepped

/-- The executor is out of the loop for a child only once the child has exited. -/
def Exited (s : LocalRun) : Prop :=
  ∀ (k : Nat) (w : Wait), s.waits[k]? = some w → w.phase = .left → w.child.exited

/-- Then the tasks do not overlap. -/
theorem Inv.sequential (inv : s.Inv) (exited : s.Exited) : s.Sequential := by
  rintro k w here before
  refine exited k w here (inv.left k w here ?_)
  have := inv.length_le
  omega

theorem Exited.waitStep {k : Nat} {act : Wait.Action} {w w' : Wait} (exited : s.Exited)
    (here : s.waits[k]? = some w) (stepped : w.step act = some w')
    (admitted : act = .tryWaitFails ∨ act = .exhausted → w.child.exited) :
    Exited { s with waits := s.waits.set k w' } := by
  intro j v at' left
  obtain ⟨rfl, rfl⟩ | ⟨-, at'⟩ := getElem?_set_cases at'
  · by_cases before : w.phase = .left
    · exact Wait.exited_step stepped (exited j w here before)
    · obtain exits | ⟨other, same⟩ := Wait.leaves stepped before left
      · exact exits
      · rw [same]
        exact admitted other
  · exact exited j v at' left

theorem Exited.step {act : Action} (exited : s.Exited) (admitted : s.LeavesExited act)
    (h : s.step act = some t) : t.Exited := by
  cases step_moves h with
  | spawn =>
      intro k w at' left
      rw [List.getElem?_append] at at'
      split at at'
      · exact exited k w at' left
      · obtain rfl := List.mem_singleton.mp (List.mem_of_getElem? at')
        cases left
  | wait _ here stepped =>
      refine exited.waitStep here stepped fun other => ?_
      rcases other with rfl | rfl <;> exact admitted _ here
  | count | stop => exact exited
  | child here stepped => exact exited.waitStep here stepped (by simp)

theorem LeavesExited.of_other {act : Action}
    (other : ∀ w ∈ s.current, act = .wait .tryWaitFails ∨ act = .wait .exhausted → w.child.exited) :
    s.LeavesExited act := by
  unfold LeavesExited
  split
  · exact fun w here => other w here (.inl rfl)
  · exact fun w here => other w here (.inr rfl)
  · trivial

/-- An executor that has left the loop for a child that still runs can count the task. -/
theorem count_of_leaves {act : Action} (h : s.step act = some t) (leaves : ¬ s.LeavesExited act) :
    ∃ u, t.step .count = some u ∧ ¬ u.Sequential := by
  have unchecked : ∃ w ∈ s.current, (act = .wait .tryWaitFails ∨ act = .wait .exhausted) ∧
      w.child.exited = false := by
    by_contra none
    refine leaves (.of_other fun w here other => ?_)
    by_contra running
    exact none ⟨w, here, other, by simpa using running⟩
  obtain ⟨w, here, other, running⟩ := unchecked
  obtain ⟨act, rfl⟩ : ∃ a, act = .wait a := by rcases other with rfl | rfl <;> exact ⟨_, rfl⟩
  cases step_moves h with
  | @wait _ w₀ w' open' here' stepped =>
      obtain rfl : w = w₀ := Option.some.inj (here.symm.trans here')
      obtain ⟨left, same⟩ := Wait.left_of_step stepped (by simpa using other)
      have lt : s.tasksCompleted < s.waits.length := (List.getElem?_eq_some_iff.mp here').1
      have current : (s.waits.set s.tasksCompleted w')[s.tasksCompleted]? = some w' := by
        rw [List.getElem?_set_self lt]
      refine ⟨{ s with
        waits := s.waits.set s.tasksCompleted w'
        tasksCompleted := s.tasksCompleted + 1 }, ?_, fun sequential => ?_⟩
      · simp [step, LocalRun.current, open', current, left]
      · have exited := sequential s.tasksCompleted w' current (.inl (Nat.lt_succ_self _))
        rw [same, running] at exited
        cases exited

/-- The states that some interleaving of the executor and its children leads to, by steps
that are admitted. -/
abbrev Reached (admits : LocalRun → Action → Prop) (plan : Plan) (machine : LocalHost) :
    LocalRun → Prop :=
  Reachable step admits (new plan machine)

/-- The tasks do not overlap in any run in which the executor leaves the loop only for
children that have exited. Any other run can go on to an overlap. -/
theorem tasks_sequential (plan : Plan) (machine : LocalHost) :
    (∀ s, Reached LeavesExited plan machine s → s.Sequential) ∧
    ∀ s act t, Reached (fun _ _ => True) plan machine s → s.step act = some t →
      ¬ s.LeavesExited act → ∃ u, t.step .count = some u ∧ ¬ u.Sequential := by
  constructor
  · intro s reached
    have both : s.Inv ∧ s.Exited := reached.invariant (I := fun s => s.Inv ∧ s.Exited)
      ⟨Inv.new plan machine, by simp [Exited, LocalRun.new]⟩
      fun _ _ _ admitted stepped ⟨inv, exited⟩ => ⟨inv.step stepped, exited.step admitted stepped⟩
    exact both.1.sequential both.2
  · exact fun s act t _ stepped leaves => count_of_leaves stepped leaves

theorem Reached.same {admits : LocalRun → Action → Prop} (reached : Reached admits plan machine s) :
    s.plan = plan ∧ s.machine = machine := by
  refine reached.invariant (I := fun s => s.plan = plan ∧ s.machine = machine) ⟨rfl, rfl⟩ ?_
  intro s act t _ stepped same
  cases step_moves stepped <;> exact same

/-- A run counts no more tasks than the executor as a function does, and spawns no other
processes. If it comes to an end without an error it has counted all of them. -/
theorem counts {admits : LocalRun → Action → Prop} (reached : Reached admits plan machine s) :
    s.tasksCompleted ≤ (Effect.finalState (SimpleExecutor.run plan machine)).tasksCompleted ∧
      (plan.blueprint.take s.waits.length).map PlannedTask.command <+:
        commands (Effect.finalState (SimpleExecutor.run plan machine)).events ∧
      (s.stopped = false → s.waits.length = s.tasksCompleted → s.step .spawn = none →
        s.tasksCompleted =
          (Effect.finalState (SimpleExecutor.run plan machine)).tasksCompleted) := by
  obtain ⟨⟨n, m, applied⟩, counted⟩ := (SimpleExecutor.execute_emits plan machine).fresh
  obtain ⟨rfl, rfl⟩ := reached.same
  have inv : s.Inv := reached.invariant (Inv.new s.plan s.machine) fun _ _ _ _ stepped inv =>
    inv.step stepped
  have progress := applied.progress
  rw [SimpleExecutor.run, counted, progress.counted, progress.commands]
  have spawned : s.waits.length ≤ n := by
    by_contra more
    obtain ⟨task, listed, reaches⟩ := inv.reached n (by omega)
    exact progress.stuck task listed (by simpa using reaches)
  have issued : n ≤ m := by
    have := progress.issued
    omega
  have le := inv.counted_le
  refine ⟨le.trans spawned, ?_, fun going all stuck => ?_⟩
  · exact (List.take_prefix_take_left (spawned.trans issued)).map _
  · by_contra short
    have lt : s.tasksCompleted < n := by omega
    obtain ⟨task, listed⟩ : ∃ task, s.plan.blueprint[s.tasksCompleted]? = some task :=
      ⟨_, List.getElem?_eq_getElem (lt.trans_le progress.le)⟩
    have reaches := progress.finished _ lt _ listed
    rw [Nat.zero_add] at reaches
    simp only [step, listed, going, all, reaches] at stuck
    simp at stuck

end LocalRun

namespace LocalRun.ClosedEarly

/-- The process of the first task closes its output and sleeps. -/
def plan : Plan :=
  ⟨"test", [⟨"sleep", ["sh", "-c", "exec >&- 2>&-; sleep 10"], [.exeExists "sh"], ["localhost"]⟩,
    ⟨"echo", ["echo", "done"], [.exeExists "echo"], ["localhost"]⟩]⟩

def machine : LocalHost where
  task _ :=
    { probe := fun _ => ⟨.ok .file, .ok .file, .ok ⟨⟩⟩
      child := ⟨.ok ⟨⟩, [.exhausted], some 0⟩ }

/-- The executor asks for the first child only after it has exited. -/
def after : List Action :=
  [.spawn, .child 0 (.close .stdout), .child 0 (.close .stderr), .child 0 .exit,
    .wait .tryWait, .count, .spawn, .child 1 .exit, .wait .tryWait, .count]

/-- The executor finds both streams at their end while the first child sleeps. -/
def before : List Action :=
  [.spawn, .child 0 (.close .stdout), .child 0 (.close .stderr), .wait .tryWait,
    .wait (.nextNone .stdout), .wait (.nextNone .stderr), .wait .exhausted, .count, .spawn]

theorem sequential_after : ∃ s, Reached LeavesExited plan machine s ∧ s.tasksCompleted = 2 ∧
    s.Sequential := by
  have completes : (Reachable.run step (new plan machine) after).any (·.tasksCompleted = 2) := by
    decide +kernel
  obtain ⟨s, ran, completed⟩ := (Option.any_eq_true _ _).mp completes
  have reached : Reached LeavesExited plan machine s :=
    Reachable.start.run_of_forall (by simp [after, LeavesExited]) ran
  exact ⟨s, reached, of_decide_eq_true completed, (tasks_sequential plan machine).1 s reached⟩

theorem not_sequential_before :
    ¬ ∀ plan machine s, Reached (fun _ _ => True) plan machine s → s.Sequential := by
  intro sequential
  have overlaps : (Reachable.run step (new plan machine) before).any fun s =>
      s.waits.length = 2 ∧ s.waits[0]?.any fun w => w.child.exited = false := by
    decide +kernel
  obtain ⟨s, ran, overlap⟩ := (Option.any_eq_true _ _).mp overlaps
  obtain ⟨spawned, runs⟩ := of_decide_eq_true overlap
  obtain ⟨w, first, running⟩ := (Option.any_eq_true _ _).mp runs
  have reached : Reached (fun _ _ => True) plan machine s :=
    Reachable.start.run_of_forall (fun _ _ _ => trivial) ran
  have exited := sequential plan machine s reached 0 w first (.inr (by omega))
  rw [of_decide_eq_true running] at exited
  cases exited

end LocalRun.ClosedEarly

end There
