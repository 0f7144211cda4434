import There.Executor.RemoteOutput
import There.Executor.Simple
import There.Executor.Source
import There.Text.Chunks

/-!
# Output in chunks

Both executors decode and log every chunk of output by itself. A chunk of a remote
command is a frame, and its text is split into lines; a chunk of a local one is what a
read returned, and bytes that are not text are logged in their debug form. Where the
chunks are cut is up to the transport, and it shows.

A message of the log does not say which stream it belongs to. The executors log one
message for each chunk they read and in the same order, which is how the messages are
attributed here.
-/

namespace There

open Text

section Pieces

variable {τ : Type} [DecidableEq τ]

/-- The chunks of one stream among the chunks of all. -/
def ofStream (stream : τ) (pieces : List (τ × ByteArray)) : List ByteArray :=
  pieces.filterMap fun piece => if piece.1 = stream then some piece.2 else none

/-- What is logged for the chunks of one stream. -/
def loggedFor (stream : τ) (pieces : List (τ × ByteArray)) (ms : List PartialLogStream) : Logs :=
  (pieces.zip ms).flatMap fun (piece, m) => if piece.1 = stream then logLines [m] else []

variable {stream : τ} {pieces : List (τ × ByteArray)}

theorem mem_ofStream {chunk : ByteArray} : chunk ∈ ofStream stream pieces ↔
    (stream, chunk) ∈ pieces := by
  simp only [ofStream, List.mem_filterMap, Option.ite_none_right_eq_some, Option.some.injEq]
  constructor
  · rintro ⟨⟨_, _⟩, mem, rfl, rfl⟩
    exact mem
  · exact fun mem => ⟨_, mem, rfl, rfl⟩

theorem loggedFor_map (render : ByteArray → Logs) :
    loggedFor stream pieces (pieces.map fun piece => .next (render piece.2)) =
      (ofStream stream pieces).flatMap render := by
  induction pieces with
  | nil => rfl
  | cons piece pieces ih =>
      rw [loggedFor, ofStream] at *
      rw [List.map_cons, List.zip_cons_cons, List.flatMap_cons, ih, List.filterMap_cons]
      by_cases same : piece.1 = stream <;> simp [same]

end Pieces

/-- The messages that a computation adds to the log. -/
def logged {α : Type} (p : Exec α) (s : Record) : List PartialLogStream :=
  (messages (Effect.finalState (p s)).events).drop (messages s.events).length

theorem logged_eq {α : Type} {p : Exec α} {s : Record} {es : List Event}
    (events : (Effect.finalState (p s)).events = s.events ++ es) : logged p s = messages es := by
  rw [logged, events, messages_append, List.drop_left]

/-- The lines of the text of a whole output. No output has no lines. -/
def wholeLines (text : String) : Logs := if text = "" then [] else splitLines text

/-- The lines that a frame of text is logged as. -/
def frameLines (bytes : ByteArray) : Logs := ((String.fromUTF8? bytes).map splitLines).getD []

/-- The stream arrives in a single chunk with something in it, or in none. -/
def Whole (chunks : List ByteArray) : Prop :=
  chunks = [] ∨ ∃ chunk, chunk.size ≠ 0 ∧ chunks = [chunk]

section Lines

variable {chunks : List ByteArray}

theorem length_splitLines (text : String) :
    (splitLines text).length = text.toList.count '\n' + 1 := by
  rw [splitLines, List.length_map, length_splitOn]

theorem length_flatMap_splitLines (texts : List String) :
    (texts.flatMap splitLines).length = (String.join texts).toList.count '\n' + texts.length := by
  have pieces := length_flatMap_splitOn '\n' (texts.map String.toList)
  rw [List.length_map, List.length_flatMap, List.map_map] at pieces
  have characters : texts.flatMap String.toList = (texts.map String.toList).flatten :=
    List.flatMap_def
  rw [String.toList_join, characters, ← pieces, List.length_flatMap]
  simp [splitLines, Function.comp_def]

/-- Splitting every text by itself gives the lines of the whole only if there is nothing
to be put together. -/
theorem flatMap_splitLines_iff (texts : List String) :
    texts.flatMap splitLines = wholeLines (String.join texts) ↔
      texts = [] ∨ ∃ text, text ≠ "" ∧ texts = [text] := by
  constructor
  · intro same
    have sizes := congrArg List.length same
    rw [length_flatMap_splitLines, wholeLines] at sizes
    split at sizes
    · rw [List.length_nil] at sizes
      exact .inl (List.eq_nil_of_length_eq_zero (by omega))
    · rename_i something
      rw [length_splitLines] at sizes
      obtain ⟨text, rfl⟩ := List.length_eq_one_iff.mp (by omega : texts.length = 1)
      exact .inr ⟨text, by simpa using something, rfl⟩
  · rintro (rfl | ⟨text, something, rfl⟩)
    · rfl
    · simp [wholeLines, something]

/-- With valid chunks it can be told from the texts whether a stream arrives in one. -/
theorem whole_iff (valid : ∀ chunk ∈ chunks, (String.fromUTF8? chunk).isSome) :
    Whole chunks ↔ chunks.filterMap String.fromUTF8? = [] ∨
      ∃ text, text ≠ "" ∧ chunks.filterMap String.fromUTF8? = [text] := by
  match chunks, valid with
  | [], _ => exact iff_of_true (.inl rfl) (.inl rfl)
  | [chunk], valid =>
      obtain ⟨text, decoded⟩ := Option.isSome_iff_exists.mp (valid chunk List.mem_cons_self)
      have size : chunk.size = 0 ↔ text = "" := by
        rw [← fromUTF8?_eq_some.mp decoded, String.size_toByteArray,
          String.utf8ByteSize_eq_zero_iff]
      simp [Whole, decoded, ← size]
  | chunk :: chunk' :: rest, valid =>
      obtain ⟨first, others⟩ := List.forall_mem_cons.mp valid
      obtain ⟨text, decoded⟩ := Option.isSome_iff_exists.mp first
      obtain ⟨text', decoded'⟩ := Option.isSome_iff_exists.mp (others chunk' List.mem_cons_self)
      simp [Whole, decoded, decoded']

theorem flatMap_frameLines (chunks : List ByteArray) :
    chunks.flatMap frameLines = (chunks.filterMap String.fromUTF8?).flatMap splitLines := by
  induction chunks with
  | nil => rfl
  | cons chunk chunks ih =>
      rw [List.flatMap_cons, ih, frameLines, List.filterMap_cons]
      cases String.fromUTF8? chunk <;> rfl

/-- The lines of the chunks are those of the whole. -/
theorem lines_iff_whole (valid : ∀ chunk ∈ chunks, (String.fromUTF8? chunk).isSome) :
    (∃ text, String.fromUTF8? (joined chunks) = some text ∧
      chunks.flatMap frameLines = wholeLines text) ↔ Whole chunks := by
  rw [whole_iff valid, ← flatMap_splitLines_iff, flatMap_frameLines, fromUTF8?_joined valid]
  simp

end Lines

/-- The two kinds of output streams of a remote command. -/
inductive RemoteStream where
  | data
  | extended (ext : Nat)
deriving Repr, DecidableEq

/-- The chunk of output that a frame carries. -/
def ChannelMsg.piece : ChannelMsg → Option (RemoteStream × ByteArray)
  | data bytes => some (.data, bytes)
  | extendedData bytes ext => some (.extended ext, bytes)
  | _ => none

/-- The frames of a remote command whose output is text, cut somewhere. The exit status
comes after the output. -/
structure RemoteOutput where
  body : List ChannelMsg
  status : Nat
  rest : List ChannelMsg
  running : ∀ m ∈ body, m.ends = false
  silent : ∀ m ∈ rest, m.output = none
  text : ∀ stream, (String.fromUTF8?
    (joined (ofStream stream (body.filterMap ChannelMsg.piece)))).isSome

namespace RemoteOutput

variable (out : RemoteOutput)

def pieces : List (RemoteStream × ByteArray) := out.body.filterMap ChannelMsg.piece

def chunks (stream : RemoteStream) : List ByteArray := ofStream stream out.pieces

def channel : ChannelRun :=
  ⟨.ok ⟨⟩, .ok ⟨⟩, out.body ++ .exitStatus out.status :: out.rest⟩

/-- What is expected of `execute_command`: the cuts do not show. -/
structure Seamless (request : Request) (s : Record) : Prop where
  result : Effect.outcome (SshExecutor.executeCommand request out.channel s) = .ok out.status
  lines : ∀ stream, ∃ text, String.fromUTF8? (joined (out.chunks stream)) = some text ∧
    loggedFor stream out.pieces (logged (SshExecutor.executeCommand request out.channel) s) =
      wholeLines text

variable {out}

theorem takeWhile_ends : out.channel.frames.takeWhile (!·.ends) = out.body := by
  rw [channel, List.takeWhile_append_of_pos (by simpa using out.running)]
  exact List.append_nil _

theorem reportedStatus_channel : reportedStatus out.channel.frames = some out.status := by
  rw [channel, reportedStatus, List.find?_append,
    List.find?_eq_none.mpr (by simpa using out.running)]
  rfl

/-- The frames decode when every chunk of every stream does. -/
theorem decodes_iff : Decodes out.channel.frames ↔
    ∀ stream, ∀ chunk ∈ out.chunks stream, (String.fromUTF8? chunk).isSome := by
  rw [Decodes, takeWhile_ends]
  have carried : ∀ (m : ChannelMsg) (data : ByteArray),
      m.output = some data ↔ ∃ stream, m.piece = some (stream, data) := fun m data => by
    cases m <;> simp [ChannelMsg.output, ChannelMsg.piece]
  simp only [chunks, mem_ofStream, pieces, List.mem_filterMap, Option.mem_def, carried]
  constructor
  · rintro h stream chunk ⟨m, mem, eq⟩
    exact h m mem chunk ⟨stream, eq⟩
  · rintro h m mem data ⟨stream, eq⟩
    exact h stream data ⟨m, mem, eq⟩

/-- The batch of a frame is the split text of its chunk. -/
theorem batches_eq (decodes : Decodes out.channel.frames) :
    out.body.filterMap ChannelMsg.batch = out.pieces.map fun piece =>
      .next (frameLines piece.2) := by
  rw [pieces, List.map_filterMap]
  refine List.filterMap_congr fun m mem => ?_
  have text := decodes m (by rwa [takeWhile_ends])
  cases m with
  | data bytes | extendedData bytes ext =>
      obtain ⟨text, decoded⟩ := Option.isSome_iff_exists.mp (text bytes rfl)
      simp [ChannelMsg.batch, ChannelMsg.output, ChannelMsg.piece, frameLines, decoded]
  | _ => rfl

theorem emits (request : Request) (decodes : Decodes out.channel.frames) :
    Emits (SshExecutor.executeCommand request out.channel) fun r es =>
      r = .ok out.status ∧ messages es = out.pieces.map fun piece =>
        .next (frameLines piece.2) := by
  have accepted : out.channel.Accepted := ⟨rfl, rfl⟩
  refine (SshExecutor.executeCommand_output accepted decodes).mono ?_
  rintro r es ⟨rfl, read⟩
  rw [read, takeWhile_ends, batches_eq decodes, reportedStatus_channel]
  exact ⟨rfl, rfl⟩

/-- The cuts do not show exactly when there are none. -/
theorem seamless_iff (out : RemoteOutput) (request : Request) (s : Record)
    (receiver : s.receiver = none) :
    out.Seamless request s ↔ ∀ stream, Whole (out.chunks stream) := by
  have lines : ∀ (decodes : Decodes out.channel.frames) (stream : RemoteStream),
      (∃ text, String.fromUTF8? (joined (out.chunks stream)) = some text ∧
        loggedFor stream out.pieces (logged (SshExecutor.executeCommand request out.channel) s) =
          wholeLines text) ↔ Whole (out.chunks stream) := fun decodes stream => by
    obtain ⟨-, es, events, -, -, sunk⟩ := emits request decodes s receiver
    rw [logged_eq events, sunk, loggedFor_map frameLines]
    exact lines_iff_whole (decodes_iff.mp decodes stream)
  constructor
  · intro seamless
    obtain ⟨-, es, -, -, -, -, answer⟩ :=
      SshExecutor.executeCommand_emits request out.channel s receiver
    have decodes := ((answer _).mp seamless.result).decodes
    exact fun stream => (lines decodes stream).mp (seamless.lines stream)
  · intro whole
    have decodes : Decodes out.channel.frames := decodes_iff.mpr fun stream chunk mem => by
      obtain none | ⟨single, -, eq⟩ := whole stream
      · simp [none] at mem
      · have text : (String.fromUTF8? (joined (out.chunks stream))).isSome := out.text stream
        rw [eq] at mem text
        obtain rfl := List.mem_singleton.mp mem
        simpa using text
    obtain ⟨-, es, -, -, result, -⟩ := emits request decodes s receiver
    exact ⟨result, fun stream => (lines decodes stream).mpr (whole stream)⟩

end RemoteOutput

/-- The debug form lists every byte. -/
theorem Utf8Error.size_le_debug (e : Utf8Error) (bytes : ByteArray) :
    bytes.size ≤ (e.debug bytes).utf8ByteSize := by
  have listed : bytes.size ≤ (String.join
      (bytes.toList.map fun b => s!"        {b},\n")).utf8ByteSize := by
    refine le_of_eq_of_le ?_ (length_le_utf8ByteSize_join fun line mem => ?_)
    · rw [List.length_map, length_toList]
    · obtain ⟨b, -, rfl⟩ := List.mem_map.mp mem
      rw [ne_eq, ← String.utf8ByteSize_eq_zero_iff, String.utf8ByteSize_append]
      exact fun none => absurd (Nat.eq_zero_of_add_eq_zero_left none) (by decide)
  have list : bytes.size ≤ (if (bytes.toList.map fun b => s!"        {b},\n").isEmpty then ""
      else "\n" ++ String.join (bytes.toList.map fun b => s!"        {b},\n") ++
        "    ").utf8ByteSize := by
    split
    · rename_i empty
      rw [← length_toList, List.length_eq_zero_iff.mpr (by simpa using empty)]
      exact Nat.zero_le _
    · exact le_append_left _ (le_append_right _ listed)
  unfold debug
  extract_lets listed errorLen
  exact le_append_left _ (le_append_left _ (le_append_left _ (le_append_left _ (le_append_left _
    (le_append_right _ list)))))

theorem size_lt_textOrDebug {bytes : ByteArray} (invalid : String.fromUTF8? bytes = none) :
    bytes.size < (textOrDebug bytes).utf8ByteSize := by
  have size := Utf8Error.size_le_debug (Utf8Error.of bytes) bytes
  have got : "got: ".utf8ByteSize = 5 := by decide
  rw [textOrDebug, invalid, String.utf8ByteSize_append, got]
  omega

/-- The two pipes of a local process. -/
inductive LocalStream where
  | stdout
  | stderr
deriving Repr, DecidableEq

/-- The round in which a chunk of the stream is read. -/
def LocalStream.turn : LocalStream → ByteArray → Turn
  | stdout, bytes => .stdout (.ok bytes)
  | stderr, bytes => .stderr (.ok bytes)

namespace Turn

def isExhausted : Turn → Bool
  | exhausted => true
  | _ => false

/-- The message that a round sinks. -/
def batch : Turn → Option PartialLogStream
  | stdout (.ok bytes) => some (.next [textOrDebug bytes])
  | stderr (.ok bytes) => some (.next [textOrDebug bytes])
  | _ => none

end Turn

namespace SimpleExecutor

theorem sinkOutput_messages (next : Except Report ByteArray) :
    Emits (sinkOutput next) fun r es => r = .ok ⟨⟩ ∧ messages es =
      (next.toOption.map fun bytes => PartialLogStream.next [textOrDebug bytes]).toList := by
  cases next with
  | error e => exact Emits.pure ⟨rfl, rfl⟩
  | ok bytes =>
      intro s open'
      have run : sinkOutput (.ok bytes) s = .ok ⟨⟩
          { s with
            events := s.events ++ [.sunk (.next [textOrDebug bytes])], receiver := none } := by
        simp [sinkOutput, sink, open']
      rw [Effect.WP, run]
      exact ⟨rfl, _, rfl, rfl, rfl, rfl⟩

/-- One message for every chunk that is read. -/
theorem waitTurns_messages (turns : List Turn) :
    Emits (waitTurns turns) fun _ es =>
      messages es = (turns.takeWhile (!·.isExhausted)).filterMap Turn.batch := by
  have round : ∀ (turn : Turn) (next : Except Report ByteArray) (turns : List Turn),
      turn.isExhausted = false → turn.batch =
        next.toOption.map (fun bytes => PartialLogStream.next [textOrDebug bytes]) →
      Emits (waitTurns turns) (fun _ es =>
        messages es = (turns.takeWhile (!·.isExhausted)).filterMap Turn.batch) →
      Emits (sinkOutput next >>= fun _ => waitTurns turns) (fun _ es => messages es =
        ((turn :: turns).takeWhile (!·.isExhausted)).filterMap Turn.batch) := by
    intro turn next turns reads batch rest
    refine Emits.bind (sinkOutput_messages next) ?_ ?_
    · rintro _ es ⟨-, sunk⟩
      refine rest.mono fun r es' sunk' => ?_
      rw [messages_append, sunk, sunk', List.takeWhile_cons_of_pos (by simpa using reads),
        List.filterMap_cons, batch]
      cases next.toOption <;> rfl
    · rintro e es ⟨⟨⟩, -⟩
  induction turns with
  | nil => exact Emits.pure rfl
  | cons turn turns ih =>
      cases turn with
      | stdout next => exact round _ next turns rfl (by cases next <;> rfl) ih
      | stderr next => exact round _ next turns rfl (by cases next <;> rfl) ih
      | exhausted => exact Emits.pure rfl

end SimpleExecutor

/-- The rounds in which the output of a local process is read, text that is cut somewhere.
The loop ends when the process has exited, or when both pipes are exhausted. -/
structure LocalOutput where
  pieces : List (LocalStream × ByteArray)
  exhausted : Bool
  text : ∀ stream, (String.fromUTF8? (joined (ofStream stream pieces))).isSome

namespace LocalOutput

variable (out : LocalOutput)

def chunks (stream : LocalStream) : List ByteArray := ofStream stream out.pieces

def turns : List Turn :=
  (out.pieces.map fun piece => piece.1.turn piece.2) ++ if out.exhausted then [.exhausted] else []

/-- What is expected of the wait loop: the entries of a stream are its text. -/
def Seamless (s : Record) : Prop :=
  ∀ stream, String.fromUTF8? (joined (out.chunks stream)) =
    some (String.join (loggedFor stream out.pieces (logged (SimpleExecutor.waitTurns out.turns) s)))

theorem batches_turns : (out.turns.takeWhile (!·.isExhausted)).filterMap Turn.batch =
    out.pieces.map fun piece => .next [textOrDebug piece.2] := by
  have reads : ∀ turn ∈ out.pieces.map (fun piece => piece.1.turn piece.2),
      (!turn.isExhausted) = true := fun turn mem => by
    obtain ⟨⟨stream, chunk⟩, -, rfl⟩ := List.mem_map.mp mem
    cases stream <;> rfl
  have ending :
      (if out.exhausted then [Turn.exhausted] else []).takeWhile (!·.isExhausted) = [] := by
    split <;> rfl
  rw [turns, List.takeWhile_append_of_pos reads, ending, List.append_nil, List.filterMap_map,
    ← List.filterMap_eq_map]
  refine List.filterMap_congr fun ⟨stream, chunk⟩ _ => ?_
  cases stream <;> rfl

/-- The cuts do not show exactly when every chunk is text. -/
theorem seamless_iff (s : Record) (receiver : s.receiver = none) :
    out.Seamless s ↔
      ∀ stream, ∀ chunk ∈ out.chunks stream, (String.fromUTF8? chunk).isSome := by
  refine forall_congr' fun stream => ?_
  obtain ⟨-, es, events, -, sunk⟩ := SimpleExecutor.waitTurns_messages out.turns s receiver
  have entries : loggedFor stream out.pieces (logged (SimpleExecutor.waitTurns out.turns) s) =
      (out.chunks stream).map textOrDebug := by
    rw [logged_eq events, sunk, batches_turns, loggedFor_map fun bytes => [textOrDebug bytes]]
    exact List.map_eq_flatMap.symm
  have faithful : ∀ chunk text, String.fromUTF8? chunk = some text → textOrDebug chunk = text :=
    fun chunk text decoded => by rw [textOrDebug, decoded]
  rw [entries]
  exact join_decoded_iff textOrDebug faithful fun _ => size_lt_textOrDebug

end LocalOutput

/-- Chunks do not show exactly when every remote stream arrives in one frame, or in none,
and every chunk of local output is text by itself. -/
theorem chunking_iff (request : Request) (remote : RemoteOutput) (process : LocalOutput)
    (s : Record) (receiver : s.receiver = none) :
    (remote.Seamless request s ↔ ∀ stream, Whole (remote.chunks stream)) ∧
    (process.Seamless s ↔
      ∀ stream, ∀ chunk ∈ process.chunks stream, (String.fromUTF8? chunk).isSome) :=
  ⟨remote.seamless_iff request s receiver, process.seamless_iff s receiver⟩

namespace CutCharacter

/-- The two bytes of one character, in two frames. -/
def remote : RemoteOutput where
  body := [.data ⟨#[0xC3]⟩, .data ⟨#[0xA9]⟩]
  status := 0
  rest := [.eof, .close]
  running := by decide
  silent := by decide
  text
    | .data => by decide
    | .extended _ => rfl

/-- The same bytes, in two reads. -/
def process : LocalOutput where
  pieces := [(.stdout, ⟨#[0xC3]⟩), (.stdout, ⟨#[0xA9]⟩)]
  exhausted := true
  text
    | .stdout => by decide
    | .stderr => by decide

theorem chunking_iff_cut :
    (Record.fresh none).receiver = none ∧
    (remote.Seamless (.command ⟨"test", ["cat", "name"], [], []⟩) (.fresh none) ↔
      ∀ stream, Whole (remote.chunks stream)) ∧
    (process.Seamless (.fresh none) ↔
      ∀ stream, ∀ chunk ∈ process.chunks stream, (String.fromUTF8? chunk).isSome) :=
  ⟨rfl, chunking_iff _ remote process (.fresh none) rfl⟩

/-- The remote command fails with a decode error, and the local log shows two of them. -/
theorem chunking_shows :
    ¬ remote.Seamless (.command ⟨"test", ["cat", "name"], [], []⟩) (.fresh none) ∧
    ¬ process.Seamless (.fresh none) := by
  constructor
  · exact fun seamless => absurd seamless.result (by decide)
  · rw [LocalOutput.seamless_iff _ _ rfl]
    exact fun text => absurd (text .stdout ⟨#[0xC3]⟩ List.mem_cons_self) (by decide)

end CutCharacter

end There
