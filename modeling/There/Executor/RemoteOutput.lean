import There.Executor.Ssh
import Mathlib.Data.List.TakeWhile

/-!
# The output of a remote command

The frame loop of `execute_command` sinks one batch for each frame of output, and it
ends with the first exit status. What the server sends between the exit status and
the close is not read any more, and nobody else reads it.
-/

namespace There

/-- The frames that the server sends before it closes the channel. -/
def beforeClose (frames : List ChannelMsg) : List ChannelMsg :=
  frames.takeWhile (· ≠ .close)

namespace ChannelMsg

def status : ChannelMsg → Option Nat
  | exitStatus n => some n
  | _ => none

/-- The batch that a frame of output is logged as. -/
def batch (m : ChannelMsg) : Option PartialLogStream :=
  (m.output.bind String.fromUTF8?).map fun text => .next (splitLines text)

theorem batch_of_output {m : ChannelMsg} {data : ByteArray} (carries : m.output = some data) :
    m.batch = (String.fromUTF8? data).map fun text => .next (splitLines text) := by
  rw [batch, carries]
  rfl

theorem batch_of_silent {m : ChannelMsg} (silent : m.output = none) : m.batch = none := by
  rw [batch, silent]
  rfl

theorem eq_of_status {m : ChannelMsg} (h : m.status.isSome) : ∃ n, m = .exitStatus n := by
  cases m with
  | exitStatus n => exact ⟨n, rfl⟩
  | _ => cases h

end ChannelMsg

section Frames

variable {m : ChannelMsg} {frames : List ChannelMsg}

theorem beforeClose_cons (h : m ≠ .close) : beforeClose (m :: frames) = m :: beforeClose frames :=
  List.takeWhile_cons_of_pos (by simpa using h)

/-- The loop reads the frames before the first exit status and before the close. -/
theorem takeWhile_ends (frames : List ChannelMsg) :
    frames.takeWhile (!·.ends) = (beforeClose frames).takeWhile (·.status.isNone) := by
  induction frames with
  | nil => rfl
  | cons m frames ih =>
      cases m with
      | close => rfl
      | exitStatus n => rfl
      | _ =>
        rw [beforeClose_cons (by simp), List.takeWhile_cons_of_pos rfl,
          List.takeWhile_cons_of_pos rfl, ih]

theorem reportedStatus_eq (frames : List ChannelMsg) :
    reportedStatus frames = (beforeClose frames).findSome? ChannelMsg.status := by
  induction frames with
  | nil => rfl
  | cons m frames ih =>
      cases m with
      | close => rfl
      | exitStatus n => rfl
      | _ =>
        rw [beforeClose_cons (by simp), reportedStatus_cons rfl,
          List.findSome?_cons_of_isNone rfl, ih]

/-- No output comes between an exit status and the close. -/
def StatusLast (frames : List ChannelMsg) : Prop :=
  ∀ before status after, beforeClose frames = before ++ .exitStatus status :: after →
    ∀ m ∈ after, m.output = none

/-- What the loop leaves unread carries no output. -/
theorem statusLast_iff (frames : List ChannelMsg) :
    StatusLast frames ↔
      ∀ m ∈ (beforeClose frames).dropWhile (·.status.isNone), m.output = none := by
  constructor
  · intro last m mem
    have split := List.takeWhile_append_dropWhile (p := (·.status.isNone)) (l := beforeClose frames)
    cases unread : (beforeClose frames).dropWhile (·.status.isNone) with
    | nil => simp [unread] at mem
    | cons x after =>
        have reports : x.status.isSome := by
          have head := List.head?_dropWhile_not (·.status.isNone) (beforeClose frames)
          simpa [unread] using head
        obtain ⟨n, rfl⟩ := ChannelMsg.eq_of_status reports
        rw [unread] at mem split
        rcases List.mem_cons.mp mem with rfl | mem
        · rfl
        · exact last _ _ _ split.symm m mem
  · intro silent before status after split m mem
    refine silent m ?_
    rw [split]
    clear silent split
    induction before with
    | nil => exact List.mem_cons_of_mem _ mem
    | cons x before ih =>
        rw [List.cons_append, List.dropWhile_cons]
        split
        · exact ih
        · simp [mem]

end Frames

/-- Two things that hold of every run of the same program. -/
theorem Emits.and {α : Type} {p : Exec α} {post post' : Except Abort α → List Event → Prop}
    (h : Emits p post) (h' : Emits p post') : Emits p fun r es => post r es ∧ post' r es := by
  intro s open'
  obtain ⟨kept, es, events, counted, holds⟩ := h s open'
  obtain ⟨-, es', events', -, holds'⟩ := h' s open'
  obtain rfl : es = es' := List.append_cancel_left (events.symm.trans events')
  exact ⟨kept, es, events, counted, holds, holds'⟩

namespace SshExecutor

/-- One batch for every frame of output that the loop reads. -/
theorem waitFrames_messages (frames : List ChannelMsg) :
    Emits (waitFrames frames) fun _ es => Decodes frames →
      messages es = (frames.takeWhile (!·.ends)).filterMap ChannelMsg.batch := by
  induction frames with
  | nil => exact Emits.pure fun _ => rfl
  | cons m frames ih =>
      obtain ⟨ends, run⟩ | ⟨goesOn, silent, run⟩ | ⟨goesOn, bytes, carries, round⟩ :=
        waitFrames_cons m frames
      · rw [run, List.takeWhile_cons_of_neg (by simpa using ends)]
        exact Emits.pure fun _ => rfl
      · rw [run, decodes_cons_of_silent goesOn silent,
          List.takeWhile_cons_of_pos (by simpa using goesOn),
          List.filterMap_cons_none (ChannelMsg.batch_of_silent silent)]
        exact ih
      · have batch := ChannelMsg.batch_of_output carries
        rw [decodes_cons goesOn, List.takeWhile_cons_of_pos (by simpa using goesOn)]
        simp only [carries, Option.mem_def, Option.some.injEq, forall_eq']
        obtain ⟨invalid, run⟩ | ⟨text, valid, run⟩ := round
        · rw [run]
          exact Emits.throw (by simp [invalid])
        · rw [run]
          refine Emits.sink_bind (ih.mono fun r es rest decodes => ?_)
          rw [valid, Option.map_some] at batch
          rw [messages_sunk, rest decodes.2, List.filterMap_cons_some batch]

/-- A command whose output is text returns the reported status. -/
theorem executeCommand_output {request : Request} {channel : ChannelRun}
    (accepted : channel.Accepted) (decodes : Decodes channel.frames) :
    Emits (executeCommand request channel) fun r es =>
      r = .ok ((reportedStatus channel.frames).getD 511) ∧
      messages es = (channel.frames.takeWhile (!·.ends)).filterMap ChannelMsg.batch := by
  refine Emits.ofExcept_bind (fun _ _ => Emits.ofExcept_bind (fun _ _ => ?_) ?_) ?_
  · refine Emits.emit_bind (by simp) (((waitFrames_emits channel.frames).and
      (waitFrames_messages channel.frames)).mono ?_)
    rintro r es ⟨⟨-, answer⟩, read⟩
    exact ⟨(answer _).mpr ⟨decodes, rfl⟩, read decodes⟩
  · intro e refused
    simp [accepted.exec] at refused
  · intro e refused
    simp [accepted.opened] at refused

end SshExecutor

/-- All the output of a command that the server sends before the close. -/
def OutputIsText (frames : List ChannelMsg) : Prop :=
  ∀ m ∈ beforeClose frames, ∀ data ∈ m.output, (String.fromUTF8? data).isSome

instance (frames : List ChannelMsg) : Decidable (OutputIsText frames) :=
  inferInstanceAs (Decidable (∀ m ∈ beforeClose frames, ∀ data ∈ m.output, _))

theorem OutputIsText.decodes {frames : List ChannelMsg} (text : OutputIsText frames) :
    Decodes frames := by
  rw [Decodes, takeWhile_ends]
  exact fun m mem => text m ((List.takeWhile_sublist _).mem mem)

/-- What is expected of `execute_command`, started in the state `s`: every frame of output
before the close is sunk, in order, and the exit status is returned, or 511 without one. -/
structure OutputKept (request : Request) (channel : ChannelRun) (s : Record) : Prop where
  sunk : messages (Effect.finalState (SshExecutor.executeCommand request channel s)).events =
    messages s.events ++ (beforeClose channel.frames).filterMap ChannelMsg.batch
  result : Effect.outcome (SshExecutor.executeCommand request channel s) =
    .ok (((beforeClose channel.frames).findSome? ChannelMsg.status).getD 511)

/-- The batches that the loop leaves out are those of the frames that it leaves unread. -/
theorem batches_eq_iff {frames : List ChannelMsg} (text : OutputIsText frames) :
    (frames.takeWhile (!·.ends)).filterMap ChannelMsg.batch =
      (beforeClose frames).filterMap ChannelMsg.batch ↔ StatusLast frames := by
  have unread : ∀ m ∈ (beforeClose frames).dropWhile (·.status.isNone),
      m.batch = none ↔ m.output = none := fun m mem => by
    cases carries : m.output with
    | none => simp [ChannelMsg.batch_of_silent carries]
    | some data =>
        have isText := text m ((List.dropWhile_sublist _).mem mem) data carries
        simpa [ChannelMsg.batch_of_output carries, Option.isSome_iff_ne_none] using isText
  conv_lhs => rhs; rw [← List.takeWhile_append_dropWhile (p := (·.status.isNone))
    (l := beforeClose frames), List.filterMap_append, ← takeWhile_ends]
  rw [List.self_eq_append_right, List.filterMap_eq_nil_iff, statusLast_iff]
  exact forall₂_congr unread

/-- With text as output and an open receiver, no output of a command is lost exactly when
none comes after its exit status. -/
theorem outputKept_iff (request : Request) (channel : ChannelRun) (s : Record)
    (receiver : s.receiver = none) (accepted : channel.Accepted)
    (text : OutputIsText channel.frames) :
    OutputKept request channel s ↔ StatusLast channel.frames := by
  obtain ⟨-, es, events, -, result, read⟩ :=
    SshExecutor.executeCommand_output accepted text.decodes s receiver
  rw [← batches_eq_iff text, ← read]
  constructor
  · rintro ⟨sunk, -⟩
    rw [events, messages_append] at sunk
    exact List.append_cancel_left sunk
  · intro all
    refine ⟨?_, by rw [result, reportedStatus_eq]⟩
    rw [events, messages_append, all]

/-- A server that reports the exit status before the output. -/
def statusFirst : ChannelRun where
  opened := .ok ⟨⟩
  exec := .ok ⟨⟩
  frames := [.success, .exitStatus 0, .data "hello\n".toUTF8, .eof, .close]

theorem outputKept_iff_statusFirst :
    ((Record.fresh none).receiver = none ∧ statusFirst.Accepted ∧
      OutputIsText statusFirst.frames) ∧
    (OutputKept (.command ⟨"test", ["echo", "hello"], [], []⟩) statusFirst (.fresh none) ↔
      StatusLast statusFirst.frames) := by
  have accepted : statusFirst.Accepted := ⟨rfl, rfl⟩
  have text : OutputIsText statusFirst.frames := by decide
  exact ⟨⟨rfl, accepted, text⟩, outputKept_iff _ statusFirst (.fresh none) rfl accepted text⟩

/-- The output of this command is lost, though it is sent before the close. -/
theorem outputKept_fails :
    ¬ OutputKept (.command ⟨"test", ["echo", "hello"], [], []⟩) statusFirst (.fresh none) := by
  rintro ⟨sunk, -⟩
  revert sunk
  decide

end There
