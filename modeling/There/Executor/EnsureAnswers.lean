import There.Executor.Ssh

/-!
# What lets a remote ensure pass

An ensure passes or fails by the number that `execute_command` returns for its check.
The number 511 stands for a check without an answer, and shells report a check that
could not be carried out as 126, 127 or 2. The three positive ensures reject all of
these, the two negated ones take them for the answer that they hope for.

The receiver of the log may go away during the check, so its steps are followed in an
arbitrary state.
-/

namespace There

/-- The receiver of the log takes at least `n` more messages. -/
def Record.Takes (s : Record) (n : Nat) : Prop := ∀ left ∈ s.receiver, n ≤ left

/-- The state after the channel has accepted a message. -/
def Record.accept (s : Record) (m : PartialLogStream) : Record :=
  { s with events := s.events ++ [.sunk m], receiver := s.receiver.map (· - 1) }

namespace Exec

variable {α : Type} {a : α} {s : Record} {n : Nat}

theorem takes_accept {m : PartialLogStream} :
    s.Takes 1 ∧ (s.accept m).Takes n ↔ s.Takes (n + 1) := by
  simp only [Record.Takes, Record.accept]
  cases s.receiver with
  | none => simp
  | some left =>
      simp only [Option.mem_def, Option.some.injEq, Option.map_some, forall_eq']
      omega

theorem sink_bind_eq_ok {m : PartialLogStream} {f : Nat → Exec α} :
    Effect.outcome ((sink m >>= f) s) = .ok a ↔
      s.Takes 1 ∧ Effect.outcome (f m.count (s.accept m)) = .ok a := by
  rw [Effect.outcome_bind_eq_ok, sink, Record.Takes, Record.accept]
  cases s.receiver with
  | none => simp
  | some left => cases left <;> simp

theorem emit_bind_eq_ok {e : Event} {f : PUnit → Exec α} :
    Effect.outcome ((emit e >>= f) s) = .ok a ↔
      Effect.outcome (f ⟨⟩ { s with events := s.events ++ [e] }) = .ok a := by
  rw [Effect.outcome_bind_eq_ok]
  exact ⟨fun ⟨_, _, h⟩ => h, fun h => ⟨⟨⟩, rfl, h⟩⟩

theorem ofExcept_bind_eq_ok {r : Except Report Unit} {f : Unit → Exec α} :
    Effect.outcome ((ofExcept r >>= f) s) = .ok a ↔
      r = .ok ⟨⟩ ∧ Effect.outcome (f ⟨⟩ s) = .ok a := by
  rw [Effect.outcome_bind_eq_ok]
  cases r with
  | ok => exact ⟨fun ⟨_, _, h⟩ => ⟨rfl, h⟩, fun ⟨_, h⟩ => ⟨⟨⟩, rfl, h⟩⟩
  | error e => exact ⟨fun ⟨_, h, _⟩ => (nomatch h), fun ⟨h, _⟩ => (nomatch h)⟩

end Exec

/-- The output that the frame loop reads. -/
def outputs (frames : List ChannelMsg) : List ByteArray :=
  (frames.takeWhile (!·.ends)).filterMap ChannelMsg.output

/-- The check of an ensure comes to an end without an error. -/
structure ChannelRun.Checked (channel : ChannelRun) (s : Record) : Prop where
  accepted : channel.Accepted
  decodes : Decodes channel.frames
  takes : s.Takes ((outputs channel.frames).length + 1)

namespace SshExecutor

theorem waitFrames_eq_ok (frames : List ChannelMsg) (s : Record) (status : Nat) :
    Effect.outcome (waitFrames frames s) = .ok status ↔
      Decodes frames ∧ s.Takes (outputs frames).length ∧
        status = (reportedStatus frames).getD 511 := by
  have empty : ∀ s : Record, s.Takes 0 := fun s left _ => Nat.zero_le left
  induction frames generalizing s with
  | nil =>
      rw [waitFrames]
      exact (ok_iff (by simp [Decodes])).trans (and_congr_right fun _ =>
        (and_iff_right (empty s)).symm)
  | cons m frames ih =>
      obtain ⟨ends, run⟩ | ⟨goesOn, silent, run⟩ | ⟨goesOn, bytes, carries, round⟩ :=
        waitFrames_cons m frames
      · have none : outputs (m :: frames) = [] := by simp [outputs, ends]
        rw [run, none]
        exact (ok_iff (decodes_cons_of_ends ends)).trans (and_congr_right fun _ =>
          (and_iff_right (empty s)).symm)
      · rw [run, decodes_cons_of_silent goesOn silent, reportedStatus_cons goesOn, outputs,
          List.takeWhile_cons_of_pos (by simpa using goesOn), List.filterMap_cons_none silent]
        exact ih s
      · have read : outputs (m :: frames) = bytes :: outputs frames := by
          rw [outputs, List.takeWhile_cons_of_pos (by simpa using goesOn),
            List.filterMap_cons_some carries, outputs]
        rw [decodes_cons goesOn, reportedStatus_cons goesOn, read, List.length_cons]
        simp only [carries, Option.mem_def, Option.some.injEq, forall_eq']
        obtain ⟨invalid, run⟩ | ⟨text, valid, run⟩ := round
        · rw [run, invalid]
          simp
        · rw [run, valid]
          refine Exec.sink_bind_eq_ok.trans ((and_congr_right fun _ => ih _).trans ?_)
          rw [← @Exec.takes_accept s (outputs frames).length (.next (splitLines text))]
          simp only [Option.isSome_some, true_and]
          tauto

theorem executeCommand_eq_ok (request : Request) (channel : ChannelRun) (s : Record)
    (status : Nat) :
    Effect.outcome (executeCommand request channel s) = .ok status ↔
      channel.Accepted ∧ Decodes channel.frames ∧ s.Takes (outputs channel.frames).length ∧
        status = (reportedStatus channel.frames).getD 511 := by
  have steps : Effect.outcome (executeCommand request channel s) = .ok status ↔
      channel.opened = .ok ⟨⟩ ∧ channel.exec = .ok ⟨⟩ ∧ Effect.outcome (waitFrames channel.frames
        { s with events := s.events ++ [.exec request] }) = .ok status :=
    Exec.ofExcept_bind_eq_ok.trans (and_congr_right fun _ =>
      Exec.ofExcept_bind_eq_ok.trans (and_congr_right fun _ => Exec.emit_bind_eq_ok))
  rw [steps, waitFrames_eq_ok, ← and_assoc]
  exact and_congr_left fun _ => ⟨fun h => ⟨h.1, h.2⟩, fun h => ⟨h.opened, h.exec⟩⟩

/-- An ensure passes if its check comes to an end with a number that lets it pass. -/
theorem ensureTask_passes (check : Nat → ChannelRun) (i : Nat) (ensure : Ensure) (s : Record) :
    Effect.outcome (ensureTask check i [ensure] s) = .ok [] ↔
      (check i).Checked s ∧ ensure.passes ((reportedStatus (check i).frames).getD 511) := by
  refine Exec.sink_bind_eq_ok.trans ?_
  rw [Effect.outcome_bind_eq_ok]
  constructor
  · rintro ⟨room, status, answered, passed⟩
    obtain ⟨accepted, decodes, takes, rfl⟩ := (executeCommand_eq_ok _ _ _ _).mp answered
    refine ⟨⟨accepted, decodes, Exec.takes_accept.mp ⟨room, takes⟩⟩, ?_⟩
    by_contra fails
    simp only [ensureTask, pure_bind, if_neg fails] at passed
    cases passed
  · rintro ⟨checked, passes⟩
    obtain ⟨room, takes⟩ := Exec.takes_accept.mpr checked.takes
    refine ⟨room, _, (executeCommand_eq_ok _ _ _ _).mpr
      ⟨checked.accepted, checked.decodes, takes, rfl⟩, ?_⟩
    simp only [ensureTask, pure_bind, if_pos passes]
    rfl

/-- The ensures of a task are checked one by one, each like a single one. -/
theorem ensureTask_cons (check : Nat → ChannelRun) (i : Nat) (ensure : Ensure)
    (ensures : List Ensure) :
    ensureTask check i (ensure :: ensures) = (do
      let own ← ensureTask check i [ensure]
      let others ← ensureTask check (i + 1) ensures
      pure (own ++ others)) := by
  simp only [ensureTask, bind_assoc, pure_bind]
  refine bind_congr fun _ => bind_congr fun status => bind_congr fun rest => ?_
  cases ensure.passes status <;> rfl

end SshExecutor

namespace Ensure

/-- The ensure is about something that must not be there. -/
def negated : Ensure → Bool
  | directoryDoesntExist _ => true
  | fileDoesntExist _ => true
  | _ => false

/-- The exit status of a check that was carried out and found what the ensure asks for. -/
def required (ensure : Ensure) : Nat := if ensure.negated then 1 else 0

theorem passes_eq (ensure : Ensure) (status : Nat) :
    ensure.passes status = if ensure.negated then status != 0 else status == 0 := by
  cases ensure <;> rfl

end Ensure

/-- What is expected of ensure number `i` of a task, checked in the state `s`: it passes
only if the server reported the required answer. -/
def FailsClosed (check : Nat → ChannelRun) (i : Nat) (ensure : Ensure) (s : Record) : Prop :=
  Effect.outcome (SshExecutor.ensureTask check i [ensure] s) = .ok [] →
    reportedStatus (check i).frames = some ensure.required

/-- Only the negated ensures take a check without an answer for a good one: exactly when
the check comes to an end without an error and its status is neither 0 nor 1. -/
theorem failsClosed_iff (check : Nat → ChannelRun) (i : Nat) (ensure : Ensure) (s : Record) :
    FailsClosed check i ensure s ↔ (ensure.negated → (check i).Checked s →
      reportedStatus (check i).frames = some 0 ∨ reportedStatus (check i).frames = some 1) := by
  rw [FailsClosed, SshExecutor.ensureTask_passes, Ensure.passes_eq, Ensure.required]
  cases ensure.negated with
  | false =>
      refine iff_of_true (fun ⟨_, passes⟩ => ?_) (fun h => absurd h (by simp))
      cases reported : reportedStatus (check i).frames <;> simp_all
  | true =>
      simp only [if_true, bne_iff_ne, forall_const, and_imp]
      refine forall_congr' fun _ => ?_
      cases reported : reportedStatus (check i).frames with
      | none => simp
      | some status => simp [imp_iff_not_or]

/-- A server whose shell has no `test`, and one that closes the channel at once. -/
theorem not_failsClosed :
    ¬ FailsClosed (fun _ => ⟨.ok ⟨⟩, .ok ⟨⟩, [.exitStatus 127, .close]⟩) 0
      (.directoryDoesntExist "/srv/data") (.fresh none) ∧
    ¬ FailsClosed (fun _ => ⟨.ok ⟨⟩, .ok ⟨⟩, [.close]⟩) 0
      (.fileDoesntExist "/srv/data/lock") (.fresh none) := by
  constructor
  · exact fun h => absurd (h rfl) (by decide)
  · exact fun h => absurd (h rfl) (by decide)

end There
