import There.Concurrent.Runs
import There.Controller.Course

/-!
# A future of the controller by itself

What a `do_apply` issues to its host and what it returns are determined by its arguments
and by how its own key and host behave: its executor never meets a closed channel, since
its reader stops only when everything has been sent.

By steps of its own it gets to its end, which is a result, or a reader that has nothing
to wait for. Which of them it is does not depend on the order of these steps.
-/

namespace There

open Concurrent

/-- Everything that the executor of a `do_apply` will ever do. -/
def World.events (w : World) (d : Dispatch) : List Event :=
  match w.key with
  | .ok _ => (Effect.finalState
      (SshExecutor.execute d.host d.hostname d.plan w.server (.fresh none))).events
  | .error _ => []

namespace Apply

/-- What the future returns, if it does. -/
def final (a : Apply) : ApplyResult :=
  match a.world.key with
  | .ok _ => a.joined (a.executed none)
  | .error e => .error e

/-- What the future may have issued by now. -/
def Issued (a : Apply) : List Event → Prop :=
  There.Issued (a.world.events a.dispatch) a.sent a.stage

/-- The steps of the future, its reader's and the collection of its result among them. -/
inductive Own where
  | act (act : Action)
  | append
  | collect

def own (a : Apply) : Own → Option Apply
  | .act act => a.step act
  | .append => a.append.map (·.2)
  | .collect => a.collect.map (·.2)

/-- Whether the future returns at all: an executor that is started has to end its stream. -/
def Returns (a : Apply) : Prop := a.world.key.isOk → .«end» ∈ a.script

/-- The results on the way are those of a run whose receiver is kept. -/
structure Settled (a : Apply) : Prop where
  inv : a.Inv
  room : 0 < a.log.rx.capacity
  stops : a.reader = .finished ∨ a.stage.gone → a.Returns
  joining : ∀ r, a.stage = .joining r → r = a.executed none
  returned : ∀ r, a.stage = .returned r → r = a.final

theorem settled_new (d : Dispatch) (w : World) : Settled { dispatch := d, world := w } where
  inv := inv_new d w
  room := Nat.zero_lt_succ _
  stops := by simp [Stage.gone]
  joining := by simp
  returned := by simp

theorem expected_eq (a : Apply) : a.expected = messages (a.world.events a.dispatch) := by
  rw [expected, World.events]
  cases a.world.key <;> rfl

variable {a a' : Apply}

theorem own_same {b : Own} (h : a.own b = some a') :
    a'.dispatch = a.dispatch ∧ a'.world = a.world := by
  cases b with
  | act act => exact (step_moves h).same
  | append =>
      obtain ⟨⟨logs, _⟩, appended, rfl⟩ := Option.map_eq_some_iff.mp h
      exact ⟨(append_same appended).1, (append_same appended).2.1⟩
  | collect =>
      obtain ⟨⟨result, _⟩, taken, rfl⟩ := Option.map_eq_some_iff.mp h
      exact ⟨(collect_same taken).1, (collect_same taken).2.1⟩

theorem final_of_isOk (loaded : a.world.key.isOk) : a.final = a.joined (a.executed none) := by
  rw [final]
  cases hk : a.world.key with
  | ok u => rfl
  | error e => rw [hk] at loaded; cases loaded

/-- The end of the stream is one of the messages that the executor sends. -/
theorem Settled.end_mem {log : SimpleLogSource} (settled : a.Settled)
    (read : a.log.source = (.ok .«end», log)) : .«end» ∈ a.script := by
  obtain ⟨-, taking⟩ := SimpleLogSource.source_end read
  obtain ⟨taken, accounts, -⟩ := settled.inv.queue
  exact accounts.mem_of_tryRecv taking

theorem Settled.moves (settled : a.Settled) (h : a.Moves a') : a'.Settled := by
  have inv := settled.inv.moves h
  have room := settled.room
  have stops := settled.stops
  cases h with
  | start | keyLoaded =>
      exact ⟨inv, room, fun h => stops (.inl (h.resolve_right (by simp [Stage.gone]))), by simp,
        by simp⟩
  | keyMissing _ missing =>
      have never : a.Returns := by
        intro loaded
        rw [missing] at loaded
        cases loaded
      exact ⟨inv, room, fun _ => never, by simp, by simp [final, missing]⟩
  | send executing next sent =>
      obtain ⟨-, rfl⟩ := Channel.send_eq_some sent
      exact ⟨inv, room, stops, settled.joining, settled.returned⟩
  | next started idle read =>
      refine ⟨inv, ?_, fun h => stops (.inr (h.resolve_left (by simp))), settled.joining,
        settled.returned⟩
      rw [SimpleLogSource.source_rx read]
      exact room
  | ended _ _ read =>
      refine ⟨inv, ?_, fun _ _ => settled.end_mem read, settled.joining, settled.returned⟩
      rw [SimpleLogSource.source_rx read]
      exact room
  | lost _ idle read =>
      obtain ⟨rfl, ended | ⟨-, dropped⟩⟩ := SimpleLogSource.source_error read
      · rw [settled.inv.ended ended] at idle
        cases idle
      · exact ⟨inv, room, fun _ => stops (.inr (settled.inv.sender dropped)), settled.joining,
          settled.returned⟩
  | sendFails executing next refused =>
      exact absurd (settled.inv.receiver refused) (settled.inv.not_finished_of_next executing next)
  | finishExecute =>
      refine ⟨inv, room, fun h => ?_, ?_, by simp⟩
      · exact stops (.inl (h.resolve_right (by simp [Stage.gone])))
      · simp [executed, run]
  | @join result joining stopped =>
      have loaded : a.world.key.isOk := settled.inv.keyed (.inl (by rw [joining]; rfl))
      refine ⟨inv, room, fun _ => stops (.inl stopped), by simp, fun r returned => ?_⟩
      obtain rfl : a.joined result = r := Stage.returned.inj returned
      rw [settled.joining result joining]
      exact (final_of_isOk loaded).symm

theorem Settled.own {b : Own} (settled : a.Settled) (h : a.own b = some a') : a'.Settled := by
  cases b with
  | act act => exact settled.moves (step_moves h)
  | append =>
      obtain ⟨⟨logs, _⟩, appended, rfl⟩ := Option.map_eq_some_iff.mp h
      have inv := settled.inv.append appended
      obtain ⟨-, rfl⟩ := append_eq_some appended
      exact ⟨inv, settled.room, fun h => settled.stops (.inr (h.resolve_left (by simp))),
        settled.joining, settled.returned⟩
  | collect =>
      obtain ⟨⟨result, _⟩, taken, rfl⟩ := Option.map_eq_some_iff.mp h
      have inv := settled.inv.collect taken
      obtain ⟨returned, rfl⟩ := collect_eq_some taken
      have gone : a.stage.gone := by rw [returned]; rfl
      exact ⟨inv, settled.room, fun _ => settled.stops (.inr gone), by simp, by simp⟩

theorem Settled.result (settled : a.Settled) :
    ∀ r, a.stage.result = some r → some a.final = some r := by
  intro r h
  rw [settled.returned r (Stage.result_eq_some.mp h)]

theorem Settled.exists_issued (settled : a.Settled) : ∃ es, a.Issued es := by
  refine Issued.exists settled.inv.unsent fun ran => ?_
  have all := settled.inv.ran ran
  rw [← expected_eq]
  have known : a.expected = a.script ∨ a.expected = [] := by
    rw [expected]
    cases a.world.key with
    | ok u => exact .inl rfl
    | error e => exact .inr rfl
  rcases known with script | none
  · rw [script] at all ⊢
    exact all
  · rw [none, List.take_nil]

/-- How far a future is from its end: its messages have to be sent, read and appended. -/
def distance (a : Apply) : Nat :=
  3 * (a.script.length - a.sent) + 2 * a.log.rx.buffer.length +
    (match a.reader with
      | .holding _ => 1
      | _ => 0) + a.stage.left

/-- The future has returned, or waits for its reader for ever. -/
def Over (a : Apply) : Prop := (∃ r, a.stage = .returned r) ∨ a.Stuck

/-- A reader that has something to read or to append gets on. -/
theorem Settled.drains (settled : a.Settled) (started : a.stage ≠ .pushed)
    (reading : a.reader ≠ .finished) (queued : a.log.rx.buffer ≠ []) :
    ∃ b a', a.own b = some a' ∧ a'.stage = a.stage ∧ a'.distance < a.distance := by
  cases reader : a.reader with
  | finished => exact absurd reader reading
  | holding logs =>
      refine ⟨.append, { a with reader := .idle }, by simp [Apply.own, append, reader], rfl, ?_⟩
      simp [distance, reader, script, run]
  | idle =>
      obtain ⟨m, rest, buffer⟩ := List.exists_cons_of_ne_nil queued
      have going : a.log.ended = false := by
        by_contra ended
        exact reading (settled.inv.ended (by simpa using ended))
      obtain ⟨log, read, rx⟩ := SimpleLogSource.source_of_buffer going buffer
      cases m with
      | next logs =>
          refine ⟨.act .source, { a with log, reader := .holding logs }, ?_, rfl, ?_⟩
          · simp [Apply.own, step, started, reader, read]
          · simp only [distance, script, run, rx, reader, buffer, List.length_cons]
            omega
      | «end» =>
          refine ⟨.act .source, { a with
            log := { log with rx := log.rx.dropReceiver }, reader := .finished }, ?_, rfl, ?_⟩
          · simp [Apply.own, step, started, reader, read]
          · simp only [distance, script, run, Channel.dropReceiver_buffer, rx, reader, buffer,
              List.length_cons]
            omega

/-- A message that waits to be sent is sent, or waits for a reader that gets on. -/
theorem Settled.sends {m : PartialLogStream} (settled : a.Settled)
    (executing : a.stage = .executing) (next : a.script[a.sent]? = some m) :
    ∃ b a', a.own b = some a' ∧ a'.stage = a.stage ∧ a'.distance < a.distance := by
  have reading := settled.inv.not_finished_of_next executing next
  have receiver : a.log.rx.receiver = true := by
    by_contra dropped
    exact reading (settled.inv.receiver (by simpa using dropped))
  by_cases room : a.log.rx.buffer.length < a.log.rx.capacity
  · refine ⟨.act .send, { a with
      sent := a.sent + 1
      log := { a.log with rx := { a.log.rx with buffer := a.log.rx.buffer ++ [m] } } },
      ?_, rfl, ?_⟩
    · simp [Apply.own, step, executing, next, Channel.send, receiver, room]
    · have same : ∀ log n, Apply.script { a with sent := n, log } = a.script := fun _ _ => rfl
      have lt : a.sent < a.script.length := (List.getElem?_eq_some_iff.mp next).1
      simp only [distance, same, List.length_append, List.length_singleton]
      omega
  · refine settled.drains (by simp [executing]) reading fun empty => room ?_
    rw [empty]
    exact settled.room

/-- A future that is not over takes some step of its own. -/
theorem Settled.nearer (settled : a.Settled) (running : a.stage ≠ .collected) (short : ¬ a.Over) :
    ∃ b a', a.own b = some a' ∧ a'.stage ≠ .collected ∧ a'.distance < a.distance := by
  have onward : (∃ b a', a.own b = some a' ∧ a'.stage = a.stage ∧ a'.distance < a.distance) →
      ∃ b a', a.own b = some a' ∧ a'.stage ≠ .collected ∧ a'.distance < a.distance := by
    rintro ⟨b, a', moved, stage, less⟩
    exact ⟨b, a', moved, stage ▸ running, less⟩
  cases stage : a.stage with
  | pushed =>
      refine ⟨.act .start, { a with stage := .preparing }, ?_, by simp, ?_⟩
      · simp [Apply.own, step, stage]
      · simp [distance, script, run, stage, Stage.left]
  | preparing =>
      cases key : a.world.key with
      | ok u =>
          refine ⟨.act .loadKey, { a with stage := .executing }, ?_, by simp, ?_⟩
          · simp [Apply.own, step, stage, key]
          · simp [distance, script, run, stage, Stage.left]
      | error e =>
          refine ⟨.act .loadKey, { a with
            stage := .returned (.error e), log := { a.log with rx := a.log.rx.dropSender } },
            ?_, by simp, ?_⟩
          · simp [Apply.own, step, stage, key]
          · simp [distance, script, run, stage, Stage.left, Channel.dropSender]
  | executing =>
      cases next : a.script[a.sent]? with
      | none =>
          refine ⟨.act .finishExecute, { a with stage := .joining (a.executed none) }, ?_, by simp,
            ?_⟩
          · simp [Apply.own, step, stage, next]
          · simp [distance, script, run, stage, Stage.left]
      | some m => exact onward (settled.sends stage next)
  | joining result =>
      by_cases stopped : a.reader = .finished
      · refine ⟨.act .join, { a with
          stage := .returned (a.joined result), log := { a.log with rx := a.log.rx.dropSender } },
          ?_, by simp, ?_⟩
        · simp [Apply.own, step, stage, stopped]
        · simp [distance, script, run, stage, Stage.left, Channel.dropSender]
      · exact onward (settled.drains (by simp [stage]) stopped fun empty =>
          short (.inr ⟨⟨result, stage⟩, empty, stopped⟩))
  | returned result => exact absurd (.inl ⟨result, stage⟩) short
  | collected => exact absurd stage running

theorem alone_same {admits : Apply → Own → Prop} (alone : Reachable Apply.own admits a a') :
    a'.dispatch = a.dispatch ∧ a'.world = a.world :=
  ⟨alone.constant Apply.dispatch fun _ _ _ _ moved => (own_same moved).1,
    alone.constant Apply.world fun _ _ _ _ moved => (own_same moved).2⟩

/-- By its own steps the future comes to its end. -/
theorem Settled.finishes (settled : a.Settled) (running : a.stage ≠ .collected) :
    ∃ a', Reachable Apply.own (fun _ _ => True) a a' ∧ a'.Settled ∧ a'.Over := by
  have nearer : ∀ b : Apply, b.Settled ∧ b.stage ≠ .collected → ¬ b.Over → ∃ o b', True ∧
      b.own o = some b' ∧ (b'.Settled ∧ b'.stage ≠ .collected) ∧ b'.distance < b.distance := by
    rintro b ⟨settled, running⟩ short
    obtain ⟨o, b', moved, running', less⟩ := settled.nearer running short
    exact ⟨o, b', trivial, moved, ⟨settled.own moved, running'⟩, less⟩
  obtain ⟨a', alone, ⟨settled', -⟩, halted⟩ :=
    Reachable.of_measure distance nearer ⟨settled, running⟩
  exact ⟨a', alone, settled', halted⟩

theorem final_eq (dispatch : a'.dispatch = a.dispatch) (world : a'.world = a.world) :
    a'.final = a.final := by
  simp only [Apply.final, joined, executed, run, dispatch, world]

/-- A future that is over is as far as any other with the same arguments that meets the
same world. -/
theorem Settled.ahead (settled : a.Settled) (halted : a.Over) (settled' : a'.Settled)
    (dispatch : a'.dispatch = a.dispatch) (world : a'.world = a.world) :
    Ahead a.Issued a'.Issued a.stage.result a'.stage.result := by
  rw [Issued, Issued, dispatch, world]
  refine Issued.ahead ?_ fun r h => ?_
  · rcases halted with ⟨r, stage⟩ | ⟨⟨r, stage⟩, -, -⟩ <;> rw [stage] <;> rfl
  · have returned' := Stage.result_eq_some.mp h
    rcases halted with ⟨r', returned⟩ | stuck
    · rw [returned, Stage.result, settled.returned r' returned, settled'.returned r returned',
        final_eq dispatch world]
    · obtain ⟨result, joining⟩ := stuck.joining
      have loaded : a.world.key.isOk := settled.inv.keyed (.inl (by rw [joining]; rfl))
      have ends := settled'.stops (.inr (by rw [returned']; rfl)) (world ▸ loaded)
      rw [script, run, dispatch, world] at ends
      exact absurd stuck (settled.inv.not_stuck ends)

/-- Two futures with the same arguments that meet the same world agree, however far each
of them has come. -/
theorem Settled.agree (settled : a.Settled) (settled' : a'.Settled)
    (dispatch : a'.dispatch = a.dispatch) (world : a'.world = a.world) :
    Agree a.Issued a'.Issued a.stage.result a'.stage.result := by
  have final := final_eq dispatch world
  have issues := settled'.exists_issued
  rw [Issued, dispatch, world] at issues
  rw [Issued, Issued, dispatch, world]
  exact There.Issued.agree settled.exists_issued issues settled.result (final ▸ settled'.result)

end Apply

end There
