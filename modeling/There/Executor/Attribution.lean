import There.Executor.Chunking
import There.Executor.Failures

/-!
# Which task a message belongs to

A message of the log says nothing about where it comes from: the output of a task may well
read `** executing task: b`. Messages are therefore attributed by the part of the executor
that sends them. An executor starts, calls `execute_task` for one task after the other, and
finishes; a call announces its task and then works on it.

The log of a run is read off by running these parts one after the other. Erasing the
attribution leaves the messages of the run.
-/

namespace There

/-- The part of an executor that a message comes from. Tasks have their number in the
blueprint. -/
inductive Origin where
  | plan
  /-- The entry of a task. -/
  | entry (task : Nat)
  /-- Its ensures, its command with the output, and the line that closes it. -/
  | work (task : Nat)
deriving Repr, DecidableEq

/-- A message may precede another. The entry of a task comes before its work, and both come
before the entry of the next task. -/
def Origin.Before : Origin → Origin → Prop
  | entry i, entry j => i < j
  | entry i, work j => i ≤ j
  | work i, entry j => i < j
  | work i, work j => i ≤ j
  | plan, _ => True
  | _, plan => True

/-- A call of `execute_task` that was entered, and the messages that it sent. -/
structure Call where
  number : Nat
  task : PlannedTask
  announced : List PartialLogStream
  worked : List PartialLogStream
deriving Repr, DecidableEq

def Call.entries (call : Call) : List (Origin × PartialLogStream) :=
  call.announced.map (.entry call.number, ·) ++ call.worked.map (.work call.number, ·)

/-- The messages of a run of an executor. -/
structure ExecutionLog where
  started : List PartialLogStream
  calls : List Call := []
  finished : List PartialLogStream := []
deriving Repr, DecidableEq

/-- The attributed messages, in the order in which they are sent. -/
def ExecutionLog.entries (log : ExecutionLog) : List (Origin × PartialLogStream) :=
  log.started.map (.plan, ·) ++ log.calls.flatMap Call.entries ++ log.finished.map (.plan, ·)

theorem ExecutionLog.messages_entries (log : ExecutionLog) : log.entries.map Prod.snd =
    log.started ++ (log.calls.flatMap fun call => call.announced ++ call.worked) ++
      log.finished := by
  simp [entries, List.map_flatMap, Call.entries, Function.comp_def]

/-- The log is what has been sent. Every call is one of a task of the blueprint and sends
one entry for it. The entries come in the order of the blueprint, and what else a call
sends comes after its entry and before the entry of any later task. -/
structure Attributed (blueprint : List PlannedTask) (sent : List PartialLogStream)
    (log : ExecutionLog) : Prop where
  sent : log.entries.map Prod.snd = sent
  listed : ∀ call ∈ log.calls, blueprint[call.number]? = some call.task
  once : ∀ call ∈ log.calls, log.entries.filter (·.1 = .entry call.number) =
    [(.entry call.number, .next ["** executing task: " ++ call.task.name])]
  ordered : log.entries.Pairwise fun m later => m.1.Before later.1

/-- The parts of an executor. `start` tells whether the tasks are run. -/
structure Phases where
  start : Exec Bool
  announce : PlannedTask → Exec PUnit
  work : Nat → PlannedTask → Exec PUnit
  finish : Bool → Exec PUnit

namespace Phases

variable (phases : Phases)

def body (k : Nat) (task : PlannedTask) : Exec PUnit := do
  phases.announce task
  phases.work k task

def execute (blueprint : List PlannedTask) : Exec PUnit := do
  let running ← phases.start
  if running then
    runTasks phases.body 0 blueprint
  phases.finish running

/-- The calls of `execute_task` in a run of the tasks that begins in the state `s`. -/
def calls : Nat → List PlannedTask → Record → List Call
  | _, [], _ => []
  | k, task :: tasks, s =>
      let announced := logged (phases.announce task) s
      match phases.announce task s with
      | .error _ _ => [⟨k, task, announced, []⟩]
      | .ok _ t =>
          let call : Call := ⟨k, task, announced, logged (phases.work k task) t⟩
          match phases.work k task t with
          | .error _ _ => [call]
          | .ok _ u => call :: calls (k + 1) tasks u

/-- The log of an execution that begins in the state `s`. -/
def log (blueprint : List PlannedTask) (s : Record) : ExecutionLog :=
  let started := logged phases.start s
  match phases.start s with
  | .error _ _ => { started }
  | .ok false t => { started, finished := logged (phases.finish false) t }
  | .ok true t =>
      let calls := phases.calls 0 blueprint t
      match runTasks phases.body 0 blueprint t with
      | .error _ _ => { started, calls }
      | .ok _ u => { started, calls, finished := logged (phases.finish true) u }

end Phases

/-- The parts of the local executor. The future of its announcement is dropped, and nothing
is sent. -/
def SimpleExecutor.phases (plan : Plan) (behaviour : LocalHost) : Phases where
  start := do
    let _ ← sinkOne s!"* applying plan: {plan.name}"
    let _ ← sinkOne s!"* steps: {plan.blueprint.length}"
    pure true
  announce _ := pure ⟨⟩
  work k task := executeTask task (behaviour.task k)
  finish _ := do
    let s ← get
    let _ ← sinkOne
      s!"*** finished applying plan: {plan.name} ({s.tasksCompleted}/{plan.blueprint.length})"
    let _ ← sink .«end»
    pure ⟨⟩

namespace SshExecutor

/-- The rest of `execute_task` after the first message. -/
def executeAnnounced (task : PlannedTask) (host : SshTask) : Exec PUnit := do
  let failedEnsures ← ensureTask host.check 0 task.ensures
  if failedEnsures.isEmpty then
    let _ ← sinkOne ("* executing task: " ++ task.name)
    let _ ← executeCommand (.command task) host.command
    let _ ← sinkOne ""
    pure ⟨⟩
  else
    let _ ← sinkOne ("ensures failed: " ++ debugEnsures failedEnsures)
    throw (.error (.msg ("ensures failed: " ++ debugEnsures failedEnsures)))

/-- The parts of the SSH executor. -/
def phases (host : Host) (hostname : String) (plan : Plan) (behaviour : SshHost) : Phases where
  start := do
    let _ ← sinkOne s!"* steps: {plan.blueprint.length}"
    Exec.emit (.connect s!"{host.host}:{host.port}")
    Exec.ofExcept behaviour.connect
    Exec.emit (.authenticate host.realRemoteUser)
    Exec.ofExcept behaviour.authenticate
  announce task := do
    let _ ← sinkOne ("** executing task: " ++ task.name)
    pure ⟨⟩
  work k task := do
    executeAnnounced task (behaviour.task k)
    Exec.count
  finish
    | true => do
        let s ← get
        let _ ← sinkOne (s!"*** finished applying plan: {plan.name} -> {hostname} " ++
          s!"({s.tasksCompleted}/{plan.blueprint.length})")
        let _ ← sink .«end»
        pure ⟨⟩
    | false => do
        let _ ← sinkOne "ssh authentication failed!"
        let _ ← sink .«end»
        throw (.error (.msg "ssh authentication failed!"))

end SshExecutor

/-- Put together, the parts are the executor. -/
theorem SimpleExecutor.execute_phases (plan : Plan) (behaviour : LocalHost) :
    (phases plan behaviour).execute plan.blueprint = execute plan behaviour := by
  have body : (phases plan behaviour).body = fun k task => executeTask task (behaviour.task k) :=
    rfl
  rw [Phases.execute, body]
  simp only [phases, execute, bind_assoc, pure_bind, if_true]

theorem SshExecutor.body_phases (host : Host) (hostname : String) (plan : Plan)
    (behaviour : SshHost) (k : Nat) (task : PlannedTask) :
    (phases host hostname plan behaviour).body k task =
      (do executeTask task (behaviour.task k); Exec.count) := by
  have announced : executeTask task (behaviour.task k) =
      sinkOne ("** executing task: " ++ task.name) >>= fun _ =>
        executeAnnounced task (behaviour.task k) := rfl
  rw [announced, Phases.body]
  simp only [phases, bind_assoc, pure_bind]

theorem SshExecutor.execute_phases (host : Host) (hostname : String) (plan : Plan)
    (behaviour : SshHost) :
    (phases host hostname plan behaviour).execute plan.blueprint =
      execute host hostname plan behaviour := by
  rw [Phases.execute, funext₂ (body_phases host hostname plan behaviour), execute]
  simp only [phases, bind_assoc]
  refine congrArg _ (funext fun _ => congrArg _ (funext fun _ => congrArg _ (funext fun _ =>
    congrArg _ (funext fun _ => congrArg _ (funext fun running => ?_)))))
  cases running with
  | true => rfl
  | false => rfl

/-- With the receiver kept open, the computation only adds events. -/
def Adds {α : Type} (p : Exec α) : Prop := Emits p fun _ _ => True

namespace Adds

variable {α β : Type} {p : Exec α} {s : Record}

theorem pure (a : α) : Adds (pure a : Exec α) := Emits.pure trivial

theorem bind {f : α → Exec β} (first : Adds p) (rest : ∀ a, Adds (f a)) : Adds (p >>= f) :=
  Emits.bind first (fun a _ _ => rest a) fun _ _ _ => trivial

/-- The log receives the messages that the computation adds to it. -/
theorem messages (h : Adds p) (receiver : s.receiver = none) :
    (Effect.finalState (p s)).receiver = none ∧
      messages (Effect.finalState (p s)).events = messages s.events ++ logged p s := by
  obtain ⟨receiver', es, events, -, -⟩ := h s receiver
  exact ⟨receiver', by rw [logged_eq events, events, messages_append]⟩

theorem ok {t : Record} {a : α} (h : Adds p) (receiver : s.receiver = none)
    (ran : p s = .ok a t) :
    t.receiver = none ∧ There.messages t.events = There.messages s.events ++ logged p s := by
  have sent := h.messages receiver
  rwa [ran] at sent

theorem error {t : Record} {e : Abort} (h : Adds p) (receiver : s.receiver = none)
    (ran : p s = .error e t) :
    t.receiver = none ∧ There.messages t.events = There.messages s.events ++ logged p s := by
  have sent := h.messages receiver
  rwa [ran] at sent

end Adds

namespace Phases

/-- Every part of the executor only adds events. -/
structure AddsEvents (phases : Phases) : Prop where
  start : Adds phases.start
  announce : ∀ task, Adds (phases.announce task)
  work : ∀ k task, Adds (phases.work k task)
  finish : ∀ running, Adds (phases.finish running)

variable {phases : Phases} {k : Nat} {task : PlannedTask} {tasks : List PlannedTask} {s : Record}

/-- The first call, and the calls after it if the first one succeeds. -/
theorem calls_cons (adds : phases.AddsEvents) (receiver : s.receiver = none) (k : Nat)
    (task : PlannedTask) (tasks : List PlannedTask) :
    ∃ worked rest, phases.calls k (task :: tasks) s =
        ⟨k, task, logged (phases.announce task) s, worked⟩ :: rest ∧
      (rest = [] ∨
        ∃ u : Record, u.receiver = none ∧ rest = phases.calls (k + 1) tasks u) := by
  rw [calls]
  cases announce : phases.announce task s with
  | error e t => exact ⟨[], [], rfl, .inl rfl⟩
  | ok a t =>
      have announced := (adds.announce task).ok receiver announce
      simp only
      cases work : phases.work k task t with
      | error e u => exact ⟨_, [], rfl, .inl rfl⟩
      | ok a u =>
          have worked := (adds.work k task).ok announced.1 work
          exact ⟨_, _, rfl, .inr ⟨u, worked.1, rfl⟩⟩

/-- The calls are numbered as their tasks are in the blueprint, and each announces its task. -/
theorem of_mem_calls (adds : phases.AddsEvents) (receiver : s.receiver = none) {call : Call}
    (mem : call ∈ phases.calls k tasks s) :
    (∃ i, call.number = k + i ∧ tasks[i]? = some call.task) ∧
      ∃ u : Record, u.receiver = none ∧
        call.announced = logged (phases.announce call.task) u := by
  induction tasks generalizing k s with
  | nil => exact absurd mem List.not_mem_nil
  | cons task tasks ih =>
      obtain ⟨worked, rest, calls, later⟩ := calls_cons adds receiver k task tasks
      rw [calls] at mem
      obtain rfl | mem := List.mem_cons.mp mem
      · exact ⟨⟨0, rfl, rfl⟩, s, receiver, rfl⟩
      · obtain rfl | ⟨u, receiver', rfl⟩ := later
        · exact absurd mem List.not_mem_nil
        · obtain ⟨⟨i, number, listed⟩, announced⟩ := ih receiver' mem
          exact ⟨⟨i + 1, by omega, by simpa using listed⟩, announced⟩

theorem pairwise_calls (adds : phases.AddsEvents) (receiver : s.receiver = none) :
    (phases.calls k tasks s).Pairwise fun call later => call.number < later.number := by
  induction tasks generalizing k s with
  | nil => exact .nil
  | cons task tasks ih =>
      obtain ⟨worked, rest, calls, later⟩ := calls_cons adds receiver k task tasks
      rw [calls]
      obtain rfl | ⟨u, receiver', rfl⟩ := later
      · exact List.pairwise_singleton _ _
      · refine List.pairwise_cons.mpr ⟨fun call mem => ?_, ih receiver'⟩
        obtain ⟨⟨i, number, -⟩, -⟩ := of_mem_calls adds receiver' mem
        simp only
        omega

/-- A run of the tasks sends what its calls send. -/
theorem messages_runTasks (adds : phases.AddsEvents) (receiver : s.receiver = none) (k : Nat)
    (tasks : List PlannedTask) :
    Effect.WP (runTasks phases.body k tasks) (fun _ t => t.receiver = none ∧
      messages t.events = messages s.events ++
        (phases.calls k tasks s).flatMap fun call => call.announced ++ call.worked) s := by
  induction tasks generalizing k s with
  | nil => exact ⟨receiver, (List.append_nil _).symm⟩
  | cons task tasks ih =>
      rw [runTasks, body, calls, bind_assoc, Effect.WP.bind_iff, Effect.WP]
      cases announce : phases.announce task s with
      | error e t => simpa using (adds.announce task).error receiver announce
      | ok a t =>
          have announced := (adds.announce task).ok receiver announce
          simp only [Effect.outcome_ok, Effect.finalState_ok]
          rw [Effect.WP.bind_iff, Effect.WP]
          cases work : phases.work k task t with
          | error e u =>
              have worked := (adds.work k task).error announced.1 work
              rw [announced.2] at worked
              simpa using worked
          | ok a u =>
              have worked := (adds.work k task).ok announced.1 work
              rw [announced.2] at worked
              simp only [Effect.outcome_ok, Effect.finalState_ok]
              refine (ih worked.1 (k + 1)).mono ?_
              rintro r v ⟨receiver', sent⟩
              exact ⟨receiver', by rw [sent, worked.2]; simp⟩

/-- Without the attribution, the log is what the run has sent. -/
theorem messages_log (adds : phases.AddsEvents) (receiver : s.receiver = none) :
    Effect.WP (phases.execute tasks) (fun _ t =>
      messages t.events = messages s.events ++ (phases.log tasks s).entries.map Prod.snd) s := by
  rw [execute, log, Effect.WP.bind_iff, Effect.WP]
  cases start : phases.start s with
  | error e t => simpa [ExecutionLog.entries] using (adds.start.error receiver start).2
  | ok running t =>
      have started := adds.start.ok receiver start
      simp only [Effect.outcome_ok, Effect.finalState_ok]
      cases running with
      | false =>
          have finished := (adds.finish false).messages started.1
          rw [started.2] at finished
          simp only [Bool.false_eq_true, if_false, ExecutionLog.messages_entries]
          simpa [Effect.WP] using finished.2
      | true =>
          have ran := messages_runTasks adds started.1 0 tasks
          simp only [if_true, ExecutionLog.messages_entries]
          rw [Effect.WP.bind_iff, Effect.WP]
          rw [Effect.WP] at ran
          cases run : runTasks phases.body 0 tasks t with
          | error e u =>
              rw [run, Effect.finalState_error, started.2] at ran
              simpa using ran.2
          | ok a u =>
              rw [run, Effect.finalState_ok, started.2] at ran
              have finished := (adds.finish true).messages ran.1
              rw [ran.2] at finished
              simpa [Effect.WP] using finished.2

theorem calls_log_running {t : Record} (start : phases.start s = .ok true t) :
    (phases.log tasks s).calls = phases.calls 0 tasks t := by
  rw [log, start]
  simp only
  cases runTasks phases.body 0 tasks t <;> rfl

/-- The calls of a run are calls of the loop, from a state in which the receiver is open. -/
theorem calls_log (adds : phases.AddsEvents) (receiver : s.receiver = none)
    (tasks : List PlannedTask) :
    (phases.log tasks s).calls = [] ∨
      ∃ t : Record, t.receiver = none ∧
        (phases.log tasks s).calls = phases.calls 0 tasks t := by
  cases start : phases.start s with
  | error e t =>
      rw [log, start]
      exact .inl rfl
  | ok running t =>
      cases running with
      | false =>
          rw [log, start]
          exact .inl rfl
      | true => exact .inr ⟨t, (adds.start.ok receiver start).1, calls_log_running start⟩

end Phases

@[simp] theorem Origin.plan_before (origin : Origin) : plan.Before origin := by
  cases origin <;> trivial

@[simp] theorem Origin.before_plan (origin : Origin) : origin.Before plan := by
  cases origin <;> trivial

namespace Call

variable {call later : Call}

theorem origin_of_mem {m : Origin × PartialLogStream} (mem : m ∈ call.entries) :
    m.1 = .entry call.number ∨ m.1 = .work call.number := by
  obtain mem | mem := List.mem_append.mp mem
  · obtain ⟨_, -, rfl⟩ := List.mem_map.mp mem
    exact .inl rfl
  · obtain ⟨_, -, rfl⟩ := List.mem_map.mp mem
    exact .inr rfl

/-- The announcement, if it sends one message at most, comes before the work. -/
theorem ordered (single : call.announced.length ≤ 1) :
    call.entries.Pairwise fun m later => m.1.Before later.1 := by
  have worked : (call.worked.map (Origin.work call.number, ·)).Pairwise
      fun m later => m.1.Before later.1 :=
    List.pairwise_map.mpr (List.pairwise_of_forall fun _ _ => Nat.le_refl _)
  rw [entries]
  match announced : call.announced with
  | [] => exact worked
  | [m] =>
      refine List.pairwise_cons.mpr ⟨fun m' mem => ?_, worked⟩
      obtain ⟨_, -, rfl⟩ := List.mem_map.mp mem
      exact Nat.le_refl _
  | _ :: _ :: _ => simp [announced] at single

/-- All messages of a call come before those of a call with a higher number. -/
theorem before (lt : call.number < later.number) {m m' : Origin × PartialLogStream}
    (mem : m ∈ call.entries) (mem' : m' ∈ later.entries) : m.1.Before m'.1 := by
  obtain origin | origin := origin_of_mem mem <;> obtain origin' | origin' := origin_of_mem mem'
  all_goals
    rw [origin, origin', Origin.Before]
    omega

theorem filter_entries (call : Call) (n : Nat) :
    call.entries.filter (·.1 = .entry n) =
      if call.number = n then call.announced.map (.entry n, ·) else [] := by
  rw [entries, List.filter_append]
  by_cases same : call.number = n
  · subst n
    simp [List.filter_map, Function.comp_def]
  · simp [List.filter_map, Function.comp_def, same]

end Call

namespace ExecutionLog

variable {log : ExecutionLog}

/-- Calls that are numbered in order send in order. -/
theorem ordered (numbered : log.calls.Pairwise fun call later => call.number < later.number)
    (single : ∀ call ∈ log.calls, call.announced.length ≤ 1) :
    log.entries.Pairwise fun m later => m.1.Before later.1 := by
  have calls : (log.calls.flatMap Call.entries).Pairwise fun m later => m.1.Before later.1 :=
    List.pairwise_flatMap.mpr ⟨fun call mem => Call.ordered (single call mem),
      numbered.imp fun lt _ mem _ mem' => Call.before lt mem mem'⟩
  have plan : ∀ (sent : List PartialLogStream), (sent.map (Origin.plan, ·)).Pairwise
      fun m later => m.1.Before later.1 := fun sent =>
    List.pairwise_map.mpr (List.pairwise_of_forall fun _ _ => trivial)
  rw [entries, List.pairwise_append, List.pairwise_append]
  refine ⟨⟨plan _, calls, ?_⟩, plan _, ?_⟩
  · intro m mem m' _
    obtain ⟨_, -, rfl⟩ := List.mem_map.mp mem
    exact Origin.plan_before _
  · intro m _ m' mem'
    obtain ⟨_, -, rfl⟩ := List.mem_map.mp mem'
    exact Origin.before_plan _

/-- The entries with the number of a call are the messages it announces its task with. -/
theorem filter_entries (numbered : log.calls.Pairwise fun call later => call.number < later.number)
    {call : Call} (mem : call ∈ log.calls) :
    log.entries.filter (·.1 = .entry call.number) =
      call.announced.map (.entry call.number, ·) := by
  obtain ⟨before, after, calls⟩ := List.append_of_mem mem
  rw [calls, List.pairwise_append, List.pairwise_cons] at numbered
  obtain ⟨-, ⟨later, -⟩, earlier⟩ := numbered
  have others : ∀ c ∈ before ++ after, (if c.number = call.number then
      c.announced.map (Origin.entry call.number, ·) else []) = [] := by
    intro c hc
    refine if_neg ?_
    obtain hc | hc := List.mem_append.mp hc
    · exact (earlier c hc call List.mem_cons_self).ne
    · exact (later c hc).ne'
  have silent : ∀ sent : List PartialLogStream, (sent.map (Origin.plan, ·)).filter
      (·.1 = .entry call.number) = [] := by
    simp [List.filter_map, Function.comp_def]
  simp only [List.forall_mem_append] at others
  rw [entries, List.filter_append, List.filter_append, silent, silent, List.nil_append,
    List.append_nil, List.filter_flatMap, funext fun c => Call.filter_entries c call.number, calls,
    List.flatMap_append, List.flatMap_cons, List.flatMap_eq_nil_iff.mpr others.1,
    List.flatMap_eq_nil_iff.mpr others.2, if_pos rfl, List.nil_append, List.append_nil]

/-- Work is done in calls. -/
theorem call_of_work {k : Nat} {m : PartialLogStream} (mem : (.work k, m) ∈ log.entries) :
    ∃ call ∈ log.calls, call.number = k := by
  have calls : (.work k, m) ∈ log.calls.flatMap Call.entries := by
    simpa [entries] using mem
  obtain ⟨call, hc, mem⟩ := List.mem_flatMap.mp calls
  obtain origin | origin := Call.origin_of_mem mem
  · exact nomatch origin
  · exact ⟨call, hc, (Origin.work.inj origin).symm⟩

end ExecutionLog

/-- What a task sends comes after its own entry and before the entries of later tasks. -/
theorem Attributed.within {blueprint : List PlannedTask} {sent : List PartialLogStream}
    {log : ExecutionLog} (h : Attributed blueprint sent log)
    {before after : List (Origin × PartialLogStream)} {k : Nat} {m : PartialLogStream}
    (split : log.entries = before ++ (.work k, m) :: after) :
    (∃ text, (.entry k, text) ∈ before) ∧
      ∀ l text, (.entry l, text) ∈ before → l ≤ k := by
  have ordered := h.ordered
  rw [split, List.pairwise_append, List.pairwise_cons] at ordered
  obtain ⟨-, ⟨later, -⟩, earlier⟩ := ordered
  refine ⟨?_, fun l text mem => earlier _ mem _ List.mem_cons_self⟩
  have mem : (.work k, m) ∈ log.entries := by simp [split]
  obtain ⟨call, hc, rfl⟩ := ExecutionLog.call_of_work mem
  have once := h.once call hc
  refine ⟨.next ["** executing task: " ++ call.task.name], ?_⟩
  have mem := (List.mem_filter.mp (once ▸ List.mem_singleton_self _)).1
  rw [split] at mem
  obtain mem | mem := List.mem_append.mp mem
  · exact mem
  · obtain mem | mem := List.mem_cons.mp mem
    · exact nomatch mem
    · exact absurd (later _ mem) (Nat.lt_irrefl _)

namespace Phases

variable {phases : Phases} {blueprint : List PlannedTask} {s : Record}

/-- The calls of an execution are calls of tasks of the blueprint, in its order. -/
theorem of_mem_log (adds : phases.AddsEvents) (receiver : s.receiver = none) {call : Call}
    (mem : call ∈ (phases.log blueprint s).calls) :
    blueprint[call.number]? = some call.task ∧
      ∃ u : Record, u.receiver = none ∧
        call.announced = logged (phases.announce call.task) u := by
  obtain none | ⟨t, receiver', calls⟩ := calls_log adds receiver blueprint
  · rw [none] at mem
    exact absurd mem List.not_mem_nil
  · rw [calls] at mem
    obtain ⟨⟨i, number, listed⟩, announced⟩ := of_mem_calls adds receiver' mem
    rw [Nat.zero_add] at number
    exact ⟨number ▸ listed, announced⟩

theorem pairwise_log (adds : phases.AddsEvents) (receiver : s.receiver = none)
    (blueprint : List PlannedTask) :
    (phases.log blueprint s).calls.Pairwise fun call later => call.number < later.number := by
  obtain none | ⟨t, receiver', calls⟩ := calls_log adds receiver blueprint
  · rw [none]
    exact .nil
  · rw [calls]
    exact pairwise_calls adds receiver'

/-- What an executor is attributed depends on its announcements only. -/
theorem attributed_iff (adds : phases.AddsEvents) :
    Attributed blueprint
        (messages (Effect.finalState (phases.execute blueprint (.fresh none))).events)
        (phases.log blueprint (.fresh none)) ↔
      ∀ call ∈ (phases.log blueprint (.fresh none)).calls,
        call.announced = [.next ["** executing task: " ++ call.task.name]] := by
  have numbered := pairwise_log adds (s := .fresh none) rfl blueprint
  constructor
  · intro attributed call mem
    have once := attributed.once call mem
    rw [ExecutionLog.filter_entries numbered mem] at once
    have messages := congrArg (List.map Prod.snd) once
    simpa [List.map_map, Function.comp_def] using messages
  · intro announced
    refine ⟨?_, fun call mem => (of_mem_log adds rfl mem).1, fun call mem => ?_, ?_⟩
    · exact (messages_log adds (s := .fresh none) rfl).symm
    · rw [ExecutionLog.filter_entries numbered mem, announced call mem]
      rfl
    · refine ExecutionLog.ordered numbered fun call mem => ?_
      rw [announced call mem]
      exact Nat.le_refl 1

end Phases

namespace Adds

theorem sink (m : PartialLogStream) : Adds (sink m) := Emits.sink trivial

theorem ofExcept {α : Type} (r : Except Report α) : Adds (Exec.ofExcept r) := by
  cases r with
  | ok a => exact Emits.pure trivial
  | error e => exact Emits.throw trivial

end Adds

theorem SimpleExecutor.adds_phases (plan : Plan) (behaviour : LocalHost) :
    (phases plan behaviour).AddsEvents where
  start := (Adds.sink _).bind fun _ => (Adds.sink _).bind fun _ => Adds.pure true
  announce _ := Adds.pure _
  work k task := (executeTask_emits task (behaviour.task k)).mono fun _ _ _ => trivial
  finish _ := Emits.get_bind fun _ => (Adds.sink _).bind fun _ => (Adds.sink _).bind fun _ =>
    Adds.pure _

theorem SshExecutor.adds_executeAnnounced (task : PlannedTask) (host : SshTask) :
    Adds (executeAnnounced task host) := by
  have ensured : Adds (ensureTask host.check 0 task.ensures) :=
    (ensureTask_emits host.check 0 task.ensures).mono fun _ _ _ => trivial
  have executed : Adds (executeCommand (.command task) host.command) :=
    (executeCommand_emits _ host.command).mono fun _ _ _ => trivial
  refine ensured.bind fun failures => ?_
  split
  · exact (Adds.sink _).bind fun _ => executed.bind fun _ => (Adds.sink _).bind fun _ =>
      Adds.pure _
  · exact (Adds.sink _).bind fun _ => Emits.throw trivial

theorem SshExecutor.adds_phases (host : Host) (hostname : String) (plan : Plan)
    (behaviour : SshHost) : (phases host hostname plan behaviour).AddsEvents where
  start := by
    have connecting : ∀ address, Adds (Exec.emit (.connect address)) := fun _ =>
      Emits.emit (by simp) trivial
    have authenticating : ∀ user, Adds (Exec.emit (.authenticate user)) := fun _ =>
      Emits.emit (by simp) trivial
    exact (Adds.sink _).bind fun _ => (connecting _).bind fun _ => (Adds.ofExcept _).bind fun _ =>
      (authenticating _).bind fun _ => Adds.ofExcept _
  announce _ := (Adds.sink _).bind fun _ => Adds.pure _
  work k task := (adds_executeAnnounced task (behaviour.task k)).bind fun _ => Emits.count trivial
  finish
    | true => Emits.get_bind fun _ => (Adds.sink _).bind fun _ => (Adds.sink _).bind fun _ =>
        Adds.pure _
    | false => (Adds.sink _).bind fun _ => (Adds.sink _).bind fun _ => Emits.throw trivial

/-- The messages of a run of the local executor, attributed. -/
def SimpleExecutor.log (plan : Plan) (behaviour : LocalHost) : ExecutionLog :=
  (phases plan behaviour).log plan.blueprint (.fresh none)

/-- The messages of a run of the SSH executor, attributed. -/
def SshExecutor.log (host : Host) (hostname : String) (plan : Plan) (behaviour : SshHost) :
    ExecutionLog :=
  (phases host hostname plan behaviour).log plan.blueprint (.fresh none)

/-- The first task of a blueprint is entered and not announced. -/
theorem SimpleExecutor.attributed_iff (plan : Plan) (behaviour : LocalHost) :
    Attributed plan.blueprint (messages (Effect.finalState (run plan behaviour)).events)
        (log plan behaviour) ↔ plan.blueprint = [] := by
  have adds := adds_phases plan behaviour
  rw [run, log, ← execute_phases, Phases.attributed_iff adds]
  have silent : ∀ call ∈ ((phases plan behaviour).log plan.blueprint (.fresh none)).calls,
      call.announced = [] := by
    intro call mem
    obtain ⟨-, u, -, announced⟩ := Phases.of_mem_log adds rfl mem
    rw [announced]
    exact List.drop_length
  constructor
  · intro announced
    cases blueprint : plan.blueprint with
    | nil => rfl
    | cons task tasks =>
        obtain ⟨t, start⟩ : ∃ t, (phases plan behaviour).start (.fresh none) = .ok true t :=
          ⟨_, rfl⟩
        have started := adds.start.ok rfl start
        obtain ⟨worked, rest, calls, -⟩ := Phases.calls_cons adds started.1 0 task tasks
        rw [Phases.calls_log_running start, blueprint, calls] at announced silent
        have one := announced _ List.mem_cons_self
        rw [silent _ List.mem_cons_self] at one
        exact nomatch one
  · intro empty call mem
    have listed := (Phases.of_mem_log adds rfl mem).1
    rw [empty] at listed
    exact nomatch listed

theorem SshExecutor.attributed (host : Host) (hostname : String) (plan : Plan)
    (behaviour : SshHost) :
    Attributed plan.blueprint
      (messages (Effect.finalState (run host hostname plan behaviour)).events)
      (log host hostname plan behaviour) := by
  have adds := adds_phases host hostname plan behaviour
  rw [run, log, ← execute_phases, Phases.attributed_iff adds]
  intro call mem
  obtain ⟨-, u, receiver, announced⟩ := Phases.of_mem_log adds rfl mem
  have sinks : Emits ((phases host hostname plan behaviour).announce call.task) fun _ es =>
      messages es = [.next ["** executing task: " ++ call.task.name]] :=
    Emits.sink_bind (Emits.pure rfl)
  obtain ⟨-, es, events, -, sunk⟩ := sinks u receiver
  rw [announced, logged_eq events, sunk]

/-- The messages of the SSH executor can be attributed to the tasks of the blueprint, and
those of the local executor only if it has none. -/
theorem log_attributed_iff (plan : Plan) (machine : LocalHost) (host : Host) (hostname : String)
    (server : SshHost) :
    (Attributed plan.blueprint
        (messages (Effect.finalState (SimpleExecutor.run plan machine)).events)
        (SimpleExecutor.log plan machine) ↔ plan.blueprint = []) ∧
      Attributed plan.blueprint
        (messages (Effect.finalState (SshExecutor.run host hostname plan server)).events)
        (SshExecutor.log host hostname plan server) :=
  ⟨SimpleExecutor.attributed_iff plan machine, SshExecutor.attributed host hostname plan server⟩

example : (SshExecutor.log ExitOne.host "localhost" ExitOne.plan ExitOne.server).entries.map
    Prod.fst = [.plan, .entry 0, .work 0, .work 0, .work 0, .plan, .plan] := by
  decide +kernel

/-- The one task of the plan is executed, and the log does not name it. -/
theorem log_not_attributed :
    ¬ Attributed ExitOne.plan.blueprint
        (messages (Effect.finalState (SimpleExecutor.run ExitOne.plan ExitOne.machine)).events)
        (SimpleExecutor.log ExitOne.plan ExitOne.machine) ∧
      commands (Effect.finalState (SimpleExecutor.run ExitOne.plan ExitOne.machine)).events =
        [["false"]] ∧
      .next ["** executing task: fail"] ∉
        messages (Effect.finalState (SimpleExecutor.run ExitOne.plan ExitOne.machine)).events := by
  refine ⟨fun attributed => ?_, by decide, by decide⟩
  have once := attributed.once ⟨0, _, [], _⟩ List.mem_cons_self
  exact absurd once (by decide)

end There
