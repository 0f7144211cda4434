import There.Cli.Alone

/-!
# What the reader has printed when `do_apply` returns

`do_apply` spawns a reader that prints the log and joins it before it returns. Two of its
exits do not get as far as the join: the one for a key of the SSH executor that cannot be
had, and the one for an error of the local executor.
-/

namespace There

namespace Cli

open Concurrent

/-- A `do_apply` with what its reader has printed, each line after the name of its host. -/
structure Flush where
  apply : Apply
  printed : List (String × String) := []

namespace Flush

/-- What the reader prints for these lines. -/
def labelled (hostname : String) (logs : Logs) : List (String × String) :=
  logs.map fun log => (hostname, log)

def step (s : Flush) : Apply.Own → Option Flush
  | .source => s.apply.source.map fun (logs, apply) =>
      { apply, printed := s.printed ++ labelled s.apply.dispatch.hostname logs }
  | b => (s.apply.own b).map fun apply => { s with apply }

def new (dispatch : Dispatch) (world : World) : Flush := { apply := { dispatch, world } }

/-- The states that some interleaving of `do_apply` and its reader leads to. -/
abbrev Reached (dispatch : Dispatch) (world : World) : Flush → Prop :=
  Reachable step (fun _ _ => True) (new dispatch world)

/-- What the executor has sunk so far. -/
def sunk (s : Flush) : List PartialLogStream := (messages s.apply.events).take s.apply.sent

/-- The reader has printed what was sunk, each line once and in order, and has stopped. -/
structure Flushed (s : Flush) : Prop where
  printed : s.printed = labelled s.apply.dispatch.hostname (logLines s.sunk)
  stopped : s.apply.reading = false

/-- No exit is taken that leaves the reader to itself: an SSH executor gets its key, and
a local executor can start the process of each of its tasks. -/
def Waits (dispatch : Dispatch) (world : World) : Prop :=
  match dispatch.executorType with
  | .ssh => world.key.isOk
  | .local => ∀ k, ∀ task ∈ dispatch.plan.blueprint[k]?, world.machine.Reaches k task

/-- What was taken from the channel is printed, and the reader stops only when it has
taken everything: it has found the end of the stream, or the future is gone. -/
structure Inv (s : Flush) : Prop where
  settled : s.apply.Settled
  taken : ∃ taken, s.apply.log.rx.Accounts s.sunk taken ∧
    s.printed = labelled s.apply.dispatch.hostname (logLines taken)
  drained : s.apply.reading = false → s.apply.log.rx.buffer = []
  stopped : s.apply.reading = false → s.apply.stage.gone ∨ .«end» ∈ messages s.apply.events

variable {dispatch : Dispatch} {world : World} {s t : Flush} {a a' : Apply}

theorem labelled_append (hostname : String) (logs logs' : Logs) :
    labelled hostname (logs ++ logs') = labelled hostname logs ++ labelled hostname logs' :=
  List.map_append

theorem Inv.new (dispatch : Dispatch) (world : World) : (new dispatch world).Inv where
  settled := Apply.settled_new dispatch world
  taken := ⟨[], rfl, rfl⟩
  drained _ := rfl
  stopped h := nomatch h

/-- What the steps of the future do to the channel: nothing, or they queue a message. -/
theorem moves_channel {x : Except String Apply} (h : a.Moves x) (ok : x = .ok a') :
    a.stage.gone = false ∧ a'.reading = a.reading ∧
      ((a'.sent = a.sent ∧ a'.log.rx.buffer = a.log.rx.buffer) ∨
        ∃ m rx, a.stage = .executing ∧ a.script[a.sent]? = some m ∧ a.log.rx.send m = some rx ∧
          a' = { a with sent := a.sent + 1, log := { a.log with rx } }) := by
  have entered : ∀ stage, (a.enter stage).reading = a.reading ∧
      (a.enter stage).sent = a.sent ∧ (a.enter stage).log.rx.buffer = a.log.rx.buffer := by
    intro stage
    cases stage <;> exact ⟨rfl, rfl, rfl⟩
  cases h with
  | startLocal pushed | startSsh pushed =>
      cases ok
      exact ⟨by rw [pushed]; rfl, rfl, .inl ⟨rfl, rfl⟩⟩
  | keyLoaded preparing | keyMissing preparing =>
      cases ok
      exact ⟨by rw [preparing]; rfl, rfl, .inl ⟨rfl, rfl⟩⟩
  | @send m rx executing next accepted =>
      cases ok
      exact ⟨by rw [executing]; rfl, rfl, .inr ⟨m, rx, executing, next, accepted, rfl⟩⟩
  | sendFails executing | finishExecute executing =>
      obtain ⟨stage, -, rfl⟩ := Apply.map_enter_eq_ok ok
      obtain ⟨reading, same⟩ := entered stage
      exact ⟨by rw [executing]; rfl, reading, .inl same⟩
  | join joining =>
      cases ok
      exact ⟨by rw [joining]; rfl, rfl, .inl ⟨rfl, rfl⟩⟩

theorem Inv.act {act : Apply.Action} (inv : s.Inv) (h : s.apply.own (.act act) = some a') :
    Inv { s with apply := a' } := by
  have settled := inv.settled.own h
  obtain ⟨dispatch, world⟩ := Apply.own_same h
  have events := Apply.events_eq dispatch world
  obtain ⟨here, reading, channel⟩ := moves_channel (Apply.step_moves (Apply.own_act_eq_some h)) rfl
  obtain ⟨taken, accounts, printed⟩ := inv.taken
  have stopped : a'.reading = false → a'.stage.gone ∨ .«end» ∈ messages a'.events := by
    intro h
    rw [events]
    refine .inr ((inv.stopped (reading ▸ h)).resolve_left ?_)
    simp [here]
  refine ⟨settled, ⟨taken, ?_, dispatch ▸ printed⟩, ?_, stopped⟩
  · obtain ⟨sent, buffer⟩ | ⟨m, rx, executing, next, accepted, rfl⟩ := channel
    · rw [sunk, Channel.Accounts] at accounts ⊢
      rw [events, sent, buffer, accounts]
    · have loaded := inv.settled.loaded (by rw [executing]; rfl)
      rw [← Apply.script_eq loaded] at next
      exact accounts.send_next next accepted
  · intro h
    have before : s.apply.reading = false := reading ▸ h
    obtain ⟨-, buffer⟩ | ⟨m, rx, executing, next, -, -⟩ := channel
    · rw [buffer]
      exact inv.drained before
    · have loaded := inv.settled.loaded (by rw [executing]; rfl)
      rw [← Apply.script_eq loaded] at next
      rw [inv.settled.feeds.reading_of_next next] at before
      cases before

theorem Inv.source {logs : Logs} (inv : s.Inv) (h : s.apply.source = some (logs, a')) :
    Inv { apply := a', printed := s.printed ++ labelled s.apply.dispatch.hostname logs } := by
  have settled := inv.settled.source h
  obtain ⟨taken, accounts, printed⟩ := inv.taken
  rw [Apply.source] at h
  split at h
  · cases h
  · rename_i guard
    have reading : s.apply.reading = true := by simpa using (not_or.mp guard).2
    split at h <;> cases h
    · rename_i read
      obtain ⟨-, received | ⟨rfl, rfl⟩⟩ := SimpleLogSource.source_next read
      · refine ⟨settled, ⟨taken ++ [.next logs], accounts.tryRecv received, ?_⟩, ?_, ?_⟩
        · simp [printed, labelled_append]
        · simp [reading]
        · simp [reading]
      · exact ⟨settled, ⟨taken, accounts, by simpa [labelled] using printed⟩, by simp [reading],
          by simp [reading]⟩
    · rename_i log read
      obtain ⟨-, received⟩ := SimpleLogSource.source_end read
      obtain ⟨-, empty⟩ := accounts.tryRecv_last received fun _ _ => s.apply.end_last
      have now : log.rx.Accounts s.sunk (taken ++ [.«end»]) := accounts.tryRecv received
      refine ⟨settled, ⟨taken ++ [.«end»], ?_, ?_⟩, fun _ => empty, fun _ => ?_⟩
      · rw [Channel.Accounts] at now ⊢
        exact now
      · simp [printed, labelled]
      · exact .inr (inv.settled.end_mem read)
    · rename_i read
      obtain ⟨rfl, ended | ⟨empty, dropped⟩⟩ := SimpleLogSource.source_error read
      · rw [inv.settled.feeds.ended ended] at reading
        cases reading
      · exact ⟨settled, ⟨taken, accounts, by simpa [labelled] using printed⟩, fun _ => empty,
          fun _ => .inl (inv.settled.sender dropped)⟩

theorem Inv.collect {result : ApplyResult} (inv : s.Inv)
    (h : s.apply.collect = some (result, a')) : Inv { s with apply := a' } := by
  have settled := inv.settled.collect h
  obtain ⟨-, rfl⟩ := Apply.collect_eq_some h
  exact ⟨settled, inv.taken, inv.drained, fun _ => .inl rfl⟩

theorem Inv.step {b : Apply.Own} (inv : s.Inv) (h : s.step b = some t) : t.Inv := by
  cases b with
  | act act =>
      obtain ⟨a', own, rfl⟩ := Option.map_eq_some_iff.mp h
      exact inv.act own
  | source =>
      obtain ⟨⟨logs, a'⟩, read, rfl⟩ := Option.map_eq_some_iff.mp h
      exact inv.source read
  | collect =>
      obtain ⟨a', own, rfl⟩ := Option.map_eq_some_iff.mp h
      obtain ⟨⟨result, _⟩, taken, rfl⟩ := Option.map_eq_some_iff.mp own
      exact inv.collect taken

theorem Reached.inv (reached : Reached dispatch world s) : s.Inv :=
  reached.invariant (Inv.new dispatch world) fun _ _ _ _ stepped inv => inv.step stepped

theorem Reached.same (reached : Reached dispatch world s) :
    s.apply.dispatch = dispatch ∧ s.apply.world = world := by
  refine reached.invariant (I := fun s => s.apply.dispatch = dispatch ∧ s.apply.world = world)
    ⟨rfl, rfl⟩ fun s b t _ stepped same => ?_
  have own : s.apply.own b = some t.apply := by
    cases b with
    | act act | collect =>
        obtain ⟨a', own, rfl⟩ := Option.map_eq_some_iff.mp stepped
        exact own
    | source =>
        obtain ⟨⟨logs, a'⟩, read, rfl⟩ := Option.map_eq_some_iff.mp stepped
        simp [Apply.own, read]
  obtain ⟨dispatch, world⟩ := Apply.own_same own
  rw [dispatch, world]
  exact same

/-- A reader that has stopped has printed everything. -/
theorem Inv.flushed (inv : s.Inv) : s.Flushed ↔ s.apply.reading = false := by
  refine ⟨Flushed.stopped, fun stopped => ⟨?_, stopped⟩⟩
  obtain ⟨taken, accounts, printed⟩ := inv.taken
  rw [printed, accounts.drained (inv.drained stopped)]

/-- While the future is there and its executor has not ended the stream, the reader reads. -/
theorem Inv.reading (inv : s.Inv) (here : s.apply.stage.gone = false)
    (unended : .«end» ∉ messages s.apply.events) : s.apply.reading = true := by
  by_contra stopped
  rcases inv.stopped (by simpa using stopped) with gone | ended
  · rw [here] at gone
    cases gone
  · exact unended ended

/-- The local executor ends well, and ends its stream, exactly if it can start every process. -/
theorem local_cases (kind : a.dispatch.executorType = .local) :
    (Effect.outcome (a.run none) = .ok ⟨⟩ ∧ Waits a.dispatch a.world) ∨
    (Effect.outcome (a.run none) ≠ .ok ⟨⟩ ∧ ¬ Waits a.dispatch a.world ∧
      .«end» ∉ messages a.events) := by
  obtain ⟨⟨n, m, applied⟩, -⟩ :=
    (SimpleExecutor.execute_emits a.dispatch.plan a.world.machine).fresh
  have events : a.events = (Effect.finalState (a.run none)).events := by
    simp only [Apply.events, Apply.loaded, kind]
  have run : a.run none = SimpleExecutor.execute a.dispatch.plan a.world.machine (.fresh none) := by
    rw [Apply.run, kind]
  rw [← run] at applied
  have iff : Effect.outcome (a.run none) = .ok ⟨⟩ ↔ Waits a.dispatch a.world := by
    rw [applied.ok, Waits, kind, applied.progress.complete_iff]
    simp
  by_cases well : Effect.outcome (a.run none) = .ok ⟨⟩
  · exact .inl ⟨well, iff.mp well⟩
  · refine .inr ⟨well, fun waits => well (iff.mpr waits), ?_⟩
    rw [events]
    exact applied.unended (by simp [well])

/-- An error that is returned at once is one of the local executor. -/
theorem executed_returned {result : ApplyResult} (h : a.executed none = .ok (.returned result)) :
    a.dispatch.executorType = .local ∧ Effect.outcome (a.run none) ≠ .ok ⟨⟩ := by
  simp only [Apply.executed] at h
  split at h <;> simp_all

/-- A future that gets to wait for its reader got there by a run that ends well, or is one
of the SSH executor. -/
theorem executed_joining {r : Except Report Nat} (h : a.executed none = .ok (.joining r)) :
    a.dispatch.executorType = .ssh ∨ Effect.outcome (a.run none) = .ok ⟨⟩ := by
  simp only [Apply.executed] at h
  split at h <;> simp_all

/-- A future that joins its reader is one that waits for it. -/
theorem waits_of_joining {r : Except Report Nat} (settled : a.Settled)
    (joining : a.stage = .joining r) : Waits a.dispatch a.world := by
  cases kind : a.dispatch.executorType with
  | ssh =>
      have loaded := settled.loaded (by rw [joining]; rfl)
      rw [Apply.loaded, kind] at loaded
      rw [Waits, kind]
      exact loaded
  | «local» =>
      rcases executed_joining (settled.joining r joining) with ssh | well
      · rw [kind] at ssh
        cases ssh
      · exact ((local_cases kind).resolve_right fun h => h.1 well).2

/-- At the step with which the future returns. -/
theorem Inv.stopped_iff {act : Apply.Action} {result : ApplyResult} (inv : s.Inv)
    (h : s.apply.own (.act act) = some a') (returned : a'.stage = .returned result) :
    a'.reading = false ↔ Waits s.apply.dispatch s.apply.world := by
  have settled := inv.settled
  have moves := Apply.step_moves (Apply.own_act_eq_some h)
  obtain ⟨here, reading, -⟩ := moves_channel moves rfl
  have leaves : .«end» ∉ messages s.apply.events → ¬ Waits s.apply.dispatch s.apply.world →
      (a'.reading = false ↔ Waits s.apply.dispatch s.apply.world) := by
    intro unended stays
    rw [reading, inv.reading here unended]
    exact iff_of_false (by simp) stays
  generalize moved : (Except.ok a' : Except String Apply) = x at moves
  cases moves with
  | startLocal | startSsh | keyLoaded =>
      cases moved
      cases returned
  | send executing =>
      cases moved
      rw [executing] at returned
      cases returned
  | keyMissing preparing key =>
      have kind := settled.preparing preparing
      refine leaves ?_ ?_
      · simp [Apply.events, Apply.loaded, kind, key]
      · rw [Waits, kind, key]
        exact Bool.false_ne_true
  | sendFails executing next refused =>
      rw [← Apply.script_eq (settled.loaded (by rw [executing]; rfl))] at next
      have reads := settled.feeds.reading_of_next next
      rw [settled.feeds.receiver refused] at reads
      cases reads
  | finishExecute executing stop =>
      obtain ⟨stage, ended, rfl⟩ := Apply.map_enter_eq_ok moved.symm
      obtain ⟨r, rfl⟩ | ⟨r, rfl⟩ := Apply.executed_eq_ok ended
      · cases returned
      · obtain ⟨kind, fails⟩ := executed_returned ended
        obtain ⟨-, stays, unended⟩ := (local_cases kind).resolve_left fun h => fails h.1
        exact leaves unended stays
  | join joining stopped =>
      exact iff_of_true (reading.trans stopped) (waits_of_joining settled joining)

/-- When `do_apply` returns, whatever the interleaving, its reader has printed everything
and has stopped exactly if no exit past the join was taken. -/
theorem flushed_iff {act : Apply.Action} {result : ApplyResult}
    (reached : Reached dispatch world s) (returns : s.step (.act act) = some t)
    (returned : t.apply.stage = .returned result) : t.Flushed ↔ Waits dispatch world := by
  obtain ⟨rfl, rfl⟩ := reached.same
  rw [(reached.inv.step returns).flushed]
  obtain ⟨a', own, rfl⟩ := Option.map_eq_some_iff.mp returns
  exact reached.inv.stopped_iff own returned

/-- A list of steps after which `act` makes the future return. -/
theorem returns_of_any (dispatch : Dispatch) (world : World) (P : Flush → Prop) [DecidablePred P]
    (act : Apply.Action) (steps : List Apply.Own)
    (h : (Reachable.run step (new dispatch world) steps).any fun s => (s.step (.act act)).any
      fun t => t.apply.stage.result.isSome ∧ P t) :
    ∃ s t result, Reached dispatch world s ∧ s.step (.act act) = some t ∧
      t.apply.stage = .returned result ∧ P t := by
  obtain ⟨s, ran, h⟩ := (Option.any_eq_true _ _).mp h
  obtain ⟨t, returns, h⟩ := (Option.any_eq_true _ _).mp h
  obtain ⟨returned, holds⟩ := of_decide_eq_true h
  obtain ⟨result, returned⟩ := Option.isSome_iff_exists.mp returned
  exact ⟨s, t, result, Reachable.start.run_of_forall (fun _ _ _ => trivial) ran, returns,
    Stage.result_eq_some.mp returned, holds⟩

/-- One task for the local machine. -/
def oneTask : Dispatch :=
  ⟨ExitOne.plan, "localhost", { host := "127.0.0.1", executor := "local" }, .local⟩

def found : World := ⟨.ok ⟨⟩, ExitOne.server, ExitOne.machine⟩

theorem waits_found : Waits oneTask found := by
  rintro (_ | k) task listed
  · obtain rfl := Option.some.inj listed
    decide
  · cases listed

/-- The executable is found, so the future waits until its reader has printed the log. -/
theorem flushed_found : ∃ s t result, Reached oneTask found s ∧ s.step (.act .join) = some t ∧
    t.apply.stage = .returned result ∧ t.Flushed := by
  obtain ⟨s, t, result, reached, returns, returned, -⟩ :=
    returns_of_any oneTask found (fun t => t.printed ≠ []) .join
      (.act .start :: List.replicate 6 (.act .send) ++ [.act .finishExecute] ++
        List.replicate 6 .source) (by decide +kernel)
  refine ⟨s, t, result, reached, returns, returned,
    (flushed_iff reached returns returned).mpr waits_found⟩

def notFound : World := ⟨.ok ⟨⟩, NoConnection.server, NoConnection.machine⟩

/-- The executable is not found, and the future returns the error before its reader has
printed anything. -/
theorem not_flushed_notFound : ¬ ∀ dispatch world s act t result, Reached dispatch world s →
    s.step (.act act) = some t → t.apply.stage = .returned result → t.Flushed := by
  intro flushed
  obtain ⟨s, t, result, reached, returns, returned, reading⟩ :=
    returns_of_any oneTask notFound (fun t => t.apply.reading = true) .finishExecute
      (.act .start :: List.replicate 4 (.act .send)) (by decide +kernel)
  have stopped := (flushed _ _ _ _ _ _ reached returns returned).stopped
  rw [reading] at stopped
  cases stopped

end Flush

end Cli

end There
