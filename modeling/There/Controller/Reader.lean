import There.Controller.Apply

/-!
# What a `do_apply` and its reader know of each other

The invariant of the two parties. The channel is accounted for; the reader stops
only when everything the executor will ever send has been taken; the future gives up
its sender only after the reader has stopped, or without having started the executor.

Two consequences are used later: no batch is lost between the executor and the
append, and a reader whose stream is ended does stop.
-/

namespace There

open Concurrent

/-- The executor has not been started. -/
def Stage.early : Stage → Bool
  | pushed => true
  | preparing => true
  | _ => false

/-- The executor has been started and its result is not given away. -/
def Stage.underway : Stage → Bool
  | executing => true
  | joining _ => true
  | _ => false

/-- The executor has nothing more to do. -/
def Stage.ran : Stage → Bool
  | joining _ => true
  | returned _ => true
  | collected => true
  | _ => false

/-- The future has returned. -/
def Stage.gone : Stage → Bool
  | returned _ => true
  | collected => true
  | _ => false

theorem Stage.ran_of_gone {s : Stage} (h : s.gone) : s.ran := by
  cases s <;> simp_all [gone, ran]

namespace Apply

/-- The executor sends nothing after the end of the stream. -/
theorem end_last (a : Apply) {before after : List PartialLogStream}
    (h : a.script = before ++ .«end» :: after) : after = [] := by
  obtain ⟨⟨n, m, applied⟩, -⟩ := (SshExecutor.execute_emits a.dispatch.host a.dispatch.hostname
    a.dispatch.plan a.world.server).fresh
  exact applied.end_last h

/-- Every message that will ever be sent: none if the key pair is missing. -/
def expected (a : Apply) : List PartialLogStream :=
  match a.world.key with
  | .ok _ => a.script
  | .error _ => []

theorem expected_of_isOk {a : Apply} (h : a.world.key.isOk) : a.expected = a.script := by
  rw [expected]
  cases hk : a.world.key with
  | ok u => rfl
  | error e => rw [hk] at h; cases h

theorem expected_of_error {a : Apply} {e : Report} (h : a.world.key = .error e) :
    a.expected = [] := by
  rw [expected, h]

structure Inv (a : Apply) : Prop where
  /-- The channel loses nothing, and the end of the stream stops the reader. -/
  queue : ∃ taken, a.log.rx.Accounts (a.script.take a.sent) taken ∧
    (.«end» ∈ taken → a.reader = .finished)
  unsent : a.stage.early → a.sent = 0
  keyed : a.stage.underway ∨ 0 < a.sent → a.world.key.isOk
  sender : a.log.rx.sender = false → a.stage.gone
  receiver : a.log.rx.receiver = false → a.reader = .finished
  ended : a.log.ended = true → a.reader = .finished
  ran : a.stage.ran → a.script.take a.sent = a.expected
  gone : a.stage.gone → a.reader = .finished ∨ a.expected = []
  finished : a.reader = .finished → a.script.take a.sent = a.expected ∧ a.log.rx.buffer = []

theorem inv_new (d : Dispatch) (w : World) : Inv { dispatch := d, world := w } where
  queue := ⟨[], rfl, fun h => absurd h List.not_mem_nil⟩
  unsent := fun _ => rfl
  keyed := by simp [Stage.underway]
  sender := by simp
  receiver := by simp
  ended := by simp
  ran := by simp [Stage.ran]
  gone := by simp [Stage.gone]
  finished := by simp

namespace Inv

variable {a a' : Apply}

/-- A reader that has stopped has left nothing unsent. -/
theorem not_finished_of_next {m : PartialLogStream} (inv : a.Inv) (executing : a.stage = .executing)
    (next : a.script[a.sent]? = some m) : a.reader ≠ .finished := by
  intro stopped
  have all := (inv.finished stopped).1
  rw [expected_of_isOk (inv.keyed (.inl (by rw [executing]; rfl)))] at all
  have lt : a.sent < a.script.length := (List.getElem?_eq_some_iff.mp next).1
  exact absurd ((List.take_eq_self_iff a.script).mp all) (by omega)

theorem send {m : PartialLogStream} {rx : Channel PartialLogStream} (inv : a.Inv)
    (executing : a.stage = .executing) (next : a.script[a.sent]? = some m)
    (sent : a.log.rx.send m = some rx) :
    Inv { a with sent := a.sent + 1, log := { a.log with rx } } := by
  have running : a.stage.underway := by rw [executing]; rfl
  have reading : a.reader ≠ .finished := inv.not_finished_of_next executing next
  obtain ⟨taken, accounts, stops⟩ := inv.queue
  have now := accounts.send_next next sent
  obtain ⟨-, rfl⟩ := Channel.send_eq_some sent
  exact ⟨⟨taken, now, stops⟩, by simp [executing, Stage.early], fun _ => inv.keyed (.inl running),
    inv.sender, inv.receiver, inv.ended, by simp [executing, Stage.ran],
    by simp [executing, Stage.gone], fun h => absurd h reading⟩

theorem finishExecute (inv : a.Inv) (executing : a.stage = .executing)
    (stop : a.script[a.sent]? = none) (result : Except Report Nat) :
    Inv { a with stage := .joining result } := by
  have keyed : a.world.key.isOk := inv.keyed (.inl (by rw [executing]; rfl))
  refine ⟨inv.queue, by simp [Stage.early], fun _ => keyed, fun h => ?_, inv.receiver, inv.ended,
    fun _ => ?_, by simp [Stage.gone], inv.finished⟩
  · have := inv.sender h
    simp [executing, Stage.gone] at this
  · show a.script.take a.sent = a.expected
    rw [expected_of_isOk keyed, List.take_of_length_le (List.getElem?_eq_none_iff.mp stop)]

theorem next {logs : Logs} {log : SimpleLogSource} (inv : a.Inv) (idle : a.reader = .idle)
    (read : a.log.source = (.ok (.next logs), log)) :
    Inv { a with log, reader := .holding logs } := by
  obtain ⟨ended, received⟩ := SimpleLogSource.source_next read
  obtain ⟨taken, accounts, stops⟩ := inv.queue
  have noEnd : .«end» ∉ taken := fun h => by
    have := stops h
    rw [idle] at this
    cases this
  have reading : a.reader ≠ .finished := by simp [idle]
  have left : a.stage.gone → a.expected = [] := fun h => (inv.gone h).resolve_left reading
  rcases received with taking | ⟨-, rfl⟩
  · obtain ⟨-, same⟩ := Channel.tryRecv_eq_ok taking
    refine ⟨⟨taken ++ [.next logs], accounts.tryRecv taking, ?_⟩, inv.unsent, inv.keyed, ?_, ?_, ?_,
      inv.ran, fun h => .inr (left h), by simp⟩
    · simp [noEnd]
    · show log.rx.sender = false → _
      rw [same]
      exact inv.sender
    · show log.rx.receiver = false → _
      rw [same]
      exact fun h => absurd (inv.receiver h) reading
    · show log.ended = true → _
      rw [ended]
      exact fun h => absurd (inv.ended h) reading
  · exact ⟨⟨taken, accounts, fun h => absurd h noEnd⟩, inv.unsent, inv.keyed, inv.sender,
      fun h => absurd (inv.receiver h) reading, fun h => absurd (inv.ended h) reading,
      inv.ran, fun h => .inr (left h), by simp⟩

/-- The end of the stream is the last message, so the reader has taken all of them. -/
theorem endOfStream {log : SimpleLogSource} (inv : a.Inv)
    (read : a.log.source = (.ok .«end», log)) :
    Inv { a with log := { log with rx := log.rx.dropReceiver }, reader := .finished } := by
  obtain ⟨-, taking⟩ := SimpleLogSource.source_end read
  obtain ⟨taken, accounts, -⟩ := inv.queue
  obtain ⟨buffer, same⟩ := Channel.tryRecv_eq_ok taking
  have now := accounts.tryRecv taking
  obtain ⟨all, drained⟩ := accounts.tryRecv_last taking fun _ _ => a.end_last
  have nonempty : a.script.take a.sent ≠ [] := by
    rw [accounts, buffer]
    simp
  have keyed : a.world.key.isOk :=
    inv.keyed (.inr (Nat.pos_of_ne_zero fun zero => nonempty (by rw [zero, List.take_zero])))
  refine ⟨⟨taken ++ [PartialLogStream.«end»], now, fun _ => rfl⟩, inv.unsent, inv.keyed, ?_,
    fun _ => rfl, fun _ => rfl, inv.ran, fun _ => .inl rfl, fun _ => ⟨?_, drained⟩⟩
  · show log.rx.sender = false → _
    rw [same]
    exact inv.sender
  · show a.script.take a.sent = a.expected
    rw [all, expected_of_isOk keyed]

/-- A reader whose sender is gone has nothing left to take. -/
theorem lost {e : Report} {log : SimpleLogSource} (inv : a.Inv) (idle : a.reader = .idle)
    (read : a.log.source = (.error e, log)) :
    Inv { a with log := { log with rx := log.rx.dropReceiver }, reader := .finished } := by
  obtain ⟨rfl, ended | ⟨empty, dropped⟩⟩ := SimpleLogSource.source_error read
  · have := inv.ended ended
    rw [idle] at this
    cases this
  · obtain ⟨taken, accounts, -⟩ := inv.queue
    exact ⟨⟨taken, accounts, fun _ => rfl⟩, inv.unsent, inv.keyed, inv.sender, fun _ => rfl,
      fun _ => rfl, inv.ran, fun _ => .inl rfl,
      fun _ => ⟨inv.ran (Stage.ran_of_gone (inv.sender dropped)), empty⟩⟩

theorem keyMissing {e : Report} (inv : a.Inv) (preparing : a.stage = .preparing)
    (missing : a.world.key = .error e) :
    Inv { a with
      stage := .returned (.error e), log := { a.log with rx := a.log.rx.dropSender } } := by
  have unsent : a.sent = 0 := inv.unsent (by rw [preparing]; rfl)
  have none : a.expected = [] := expected_of_error missing
  refine ⟨inv.queue, by simp [Stage.early], ?_, fun _ => rfl, inv.receiver, inv.ended, fun _ => ?_,
    fun _ => .inr none, inv.finished⟩
  · simp [Stage.underway, unsent]
  · show a.script.take a.sent = a.expected
    rw [unsent, none, List.take_zero]

theorem join {result : Except Report Nat} (inv : a.Inv) (joining : a.stage = .joining result)
    (stopped : a.reader = .finished) (value : ApplyResult) :
    Inv { a with stage := .returned value, log := { a.log with rx := a.log.rx.dropSender } } := by
  have ran : a.stage.ran := by rw [joining]; rfl
  have keyed : a.world.key.isOk := inv.keyed (.inl (by rw [joining]; rfl))
  exact ⟨inv.queue, by simp [Stage.early], fun _ => keyed, fun _ => rfl, inv.receiver, inv.ended,
    fun _ => inv.ran ran, fun _ => .inl stopped, inv.finished⟩

theorem start (inv : a.Inv) (pushed : a.stage = .pushed) :
    Inv { a with stage := .preparing } := by
  have unsent : a.sent = 0 := inv.unsent (by rw [pushed]; rfl)
  refine ⟨inv.queue, fun _ => unsent, by simp [Stage.underway, unsent], fun h => ?_, inv.receiver,
    inv.ended, by simp [Stage.ran], by simp [Stage.gone], inv.finished⟩
  have := inv.sender h
  simp [pushed, Stage.gone] at this

theorem keyLoaded {u : Unit} (inv : a.Inv) (preparing : a.stage = .preparing)
    (loaded : a.world.key = .ok u) : Inv { a with stage := .executing } := by
  have keyed : a.world.key.isOk := by rw [loaded]; rfl
  refine ⟨inv.queue, by simp [Stage.early], fun _ => keyed, fun h => ?_, inv.receiver, inv.ended,
    by simp [Stage.ran], by simp [Stage.gone], inv.finished⟩
  have := inv.sender h
  simp [preparing, Stage.gone] at this

/-- Every step of either party keeps the invariant. -/
theorem moves (inv : a.Inv) (h : a.Moves a') : a'.Inv := by
  cases h with
  | start pushed => exact inv.start pushed
  | keyLoaded preparing loaded => exact inv.keyLoaded preparing loaded
  | keyMissing preparing missing => exact inv.keyMissing preparing missing
  | send executing next sent => exact inv.send executing next sent
  | sendFails executing next refused =>
      exact absurd (inv.receiver refused) (inv.not_finished_of_next executing next)
  | finishExecute executing stop => exact inv.finishExecute executing stop _
  | next _ idle read => exact inv.next idle read
  | ended _ _ read => exact inv.endOfStream read
  | lost _ idle read => exact inv.lost idle read
  | join joining stopped => exact inv.join joining stopped _

theorem append {logs : Logs} (inv : a.Inv) (h : a.append = some (logs, a')) : a'.Inv := by
  obtain ⟨holding, rfl⟩ := append_eq_some h
  have reading : a.reader ≠ .finished := by simp [holding]
  obtain ⟨taken, accounts, stops⟩ := inv.queue
  exact ⟨⟨taken, accounts, fun h => absurd (stops h) reading⟩, inv.unsent, inv.keyed, inv.sender,
    fun h => absurd (inv.receiver h) reading, fun h => absurd (inv.ended h) reading, inv.ran,
    fun h => .inr ((inv.gone h).resolve_left reading), by simp⟩

theorem collect {result : ApplyResult} (inv : a.Inv) (h : a.collect = some (result, a')) :
    a'.Inv := by
  obtain ⟨returned, rfl⟩ := collect_eq_some h
  have gone : a.stage.gone := by rw [returned]; rfl
  refine ⟨inv.queue, by simp [Stage.early], fun h => ?_, fun _ => rfl, inv.receiver, inv.ended,
    fun _ => inv.ran (Stage.ran_of_gone gone), fun _ => inv.gone gone, inv.finished⟩
  exact inv.keyed (.inr (by simpa [Stage.underway] using h))

end Inv

/-- The future waits for a reader that can only find an empty channel with a living
sender from now on. -/
structure Stuck (a : Apply) : Prop where
  joining : ∃ result, a.stage = .joining result
  empty : a.log.rx.buffer = []
  reading : a.reader ≠ .finished

/-- A reader stops once it has taken the end of the stream. -/
theorem Inv.not_stuck {a : Apply} (inv : a.Inv) (ends : .«end» ∈ a.script) : ¬ a.Stuck := by
  rintro ⟨⟨result, joining⟩, empty, reading⟩
  obtain ⟨taken, accounts, stops⟩ := inv.queue
  have keyed : a.world.key.isOk := inv.keyed (.inl (by rw [joining]; rfl))
  have all := inv.ran (by rw [joining]; rfl)
  rw [expected_of_isOk keyed] at all
  rw [all] at accounts
  apply reading
  apply stops
  rw [accounts.drained empty]
  exact ends

/-- The log lines that the channel has accepted. -/
def sunk (a : Apply) : Logs := logLines (a.script.take a.sent)

/-- Those of them that have not been appended to the job. -/
def undelivered (a : Apply) : Logs :=
  (match a.reader with
    | .holding logs => logs
    | _ => []) ++ logLines a.log.rx.buffer

/-- What a step adds to the lines accepted, it adds to those not yet appended. -/
theorem Moves.account {a a' : Apply} (h : a.Moves a') :
    ∃ lines, a'.sunk = a.sunk ++ lines ∧ a'.undelivered = a.undelivered ++ lines := by
  cases h with
  | @send m rx executing next sent =>
      obtain ⟨-, rfl⟩ := Channel.send_eq_some sent
      refine ⟨logLines [m], ?_, ?_⟩
      · show logLines (a.script.take (a.sent + 1)) = _
        rw [List.take_add_one, next]
        exact logLines_append _ _
      · simp [undelivered]
  | @next logs log started idle read =>
      refine ⟨[], (List.append_nil _).symm, ?_⟩
      obtain ⟨-, taking | ⟨rfl, rfl⟩⟩ := SimpleLogSource.source_next read
      · obtain ⟨buffer, -⟩ := Channel.tryRecv_eq_ok taking
        simp [undelivered, idle, buffer]
      · simp [undelivered, idle]
  | @ended log started idle read =>
      refine ⟨[], (List.append_nil _).symm, ?_⟩
      obtain ⟨-, taking⟩ := SimpleLogSource.source_end read
      obtain ⟨buffer, -⟩ := Channel.tryRecv_eq_ok taking
      simp [undelivered, idle, buffer]
  | lost started idle read =>
      refine ⟨[], (List.append_nil _).symm, ?_⟩
      obtain ⟨rfl, -⟩ := SimpleLogSource.source_error read
      simp [undelivered, idle]
  | _ => exact ⟨[], (List.append_nil _).symm, (List.append_nil _).symm⟩

/-- An append delivers the batch that was held. -/
theorem append_account {a a' : Apply} {logs : Logs} (h : a.append = some (logs, a')) :
    a'.sunk = a.sunk ∧ a.undelivered = logs ++ a'.undelivered := by
  obtain ⟨holding, rfl⟩ := append_eq_some h
  exact ⟨rfl, by simp [undelivered, holding]⟩

theorem collect_account {a a' : Apply} {result : ApplyResult}
    (h : a.collect = some (result, a')) :
    a'.sunk = a.sunk ∧ a'.undelivered = a.undelivered := by
  obtain ⟨-, rfl⟩ := collect_eq_some h
  exact ⟨rfl, rfl⟩

end Apply

end There
