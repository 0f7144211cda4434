import There.Concurrent.Runs
import There.Controller.Bootstrap
import There.Text.Chunks

/-!
# The key pair of the executor

The controller reads its key pair from a file, or makes one and stores it there under a
passphrase from its environment. The file is created before the passphrase has been asked
for and before anything has been encoded, and a call that fails after that leaves an empty
file behind. An empty file is no key: from then on every call fails.

What a call meets is data: which of its requests to the system fail, the passphrase, the
random bytes, and how much of what it writes is in the file when the next call begins. The
bootstrap endpoint looks at the same function with less of it in view.
-/

namespace There

open Concurrent

/-- What the controller uses of `thrussh_keys`. -/
structure ThrusshKeys (K Entropy : Type) where
  /-- `encode_pkcs8_pem_encrypted`, under a passphrase and with a number of rounds. -/
  encode : Entropy → K → ByteArray → Nat → Except Report ByteArray
  /-- `decode_secret_key`, with a passphrase if there is one. -/
  decode : String → Option String → Except Report K
  /-- Decoding undoes the encryption under the same passphrase. -/
  decode_encode : ∀ {entropy key passphrase rounds pem},
    encode entropy key (String.toUTF8 passphrase) rounds = .ok pem →
      ∃ text, String.fromUTF8? pem = some text ∧ decode text (some passphrase) = .ok key
  /-- An empty file is rejected. -/
  decode_empty : ∀ passphrase, (decode "" passphrase).isOk = false

/-- What one call of `get_or_create_executor_keypair` meets. -/
structure KeyCall (K Entropy : Type) where
  /-- The query behind `exists`, which takes a failure for a missing file. -/
  metadata : Except Report Unit
  read : Except Report Unit
  create : Except Report Unit
  /-- The variable `THERE_SSH_PASSPHRASE`. -/
  passphrase : Except Report String
  generated : K
  entropy : Entropy
  write : Except Report Unit
  /-- How many of the bytes that `write_all` was given are in the file when the next call
  begins. A file of tokio is written behind the back of `write_all`, and nobody waits. -/
  written : Nat

/-- The content of the key file, if there is one. -/
abbrev KeyFile : Type := Option ByteArray

variable {K Entropy : Type}

namespace KeyFile

def passphrase (call : KeyCall K Entropy) : EStateM Report KeyFile String :=
  ofExcept call.passphrase

/-- `path.exists()`. -/
def pathExists (file : KeyFile) (call : KeyCall K Entropy) : Bool :=
  file.isSome && call.metadata.isOk

/-- `fs::read_to_string`. -/
def readToString (call : KeyCall K Entropy) : EStateM Report KeyFile String := do
  ofExcept call.read
  match (← get).bind String.fromUTF8? with
  | some text => pure text
  | none => throw (.msg "stream did not contain valid UTF-8")

def getOrCreateExecutorKeypair (keys : ThrusshKeys K Entropy) (call : KeyCall K Entropy) :
    EStateM Report KeyFile K := do
  if pathExists (← get) call then
    let key ← readToString call
    let passphrase ← passphrase call
    ofExcept (keys.decode key (some passphrase))
  else
    ofExcept call.create
    set (some ByteArray.empty)
    let key := call.generated
    let passphrase ← passphrase call
    let pem ← ofExcept (keys.encode call.entropy key passphrase.toUTF8 10000)
    set (some (pem.extract 0 call.written))
    ofExcept call.write
    pure key

end KeyFile

/-- A call that has been made. -/
structure KeyCall.Made (K Entropy : Type) where
  call : KeyCall K Entropy
  before : KeyFile
  after : KeyFile
  result : Except Report K

/-- The key file, and the calls that have been made, one after the other. -/
structure KeyStore (K Entropy : Type) where
  file : KeyFile
  calls : List (KeyCall.Made K Entropy) := []

def KeyStore.step (keys : ThrusshKeys K Entropy) (s : KeyStore K Entropy)
    (call : KeyCall K Entropy) : Option (KeyStore K Entropy) :=
  let run := KeyFile.getOrCreateExecutorKeypair keys call s.file
  some {
    file := Effect.finalState run
    calls := s.calls ++ [⟨call, s.file, Effect.finalState run, Effect.outcome run⟩] }

/-- The file of the call can be looked up and read. -/
structure KeyCall.Reads (call : KeyCall K Entropy) : Prop where
  metadata : call.metadata.isOk
  read : call.read.isOk

/-- A call that fails leaves the file as it was, and a key that has been returned is
returned to every later call that has the same passphrase and can read the file. -/
structure AtomicAndStable (calls : List (KeyCall.Made K Entropy)) : Prop where
  atomic : ∀ made ∈ calls, ¬ made.result.isOk → made.after = made.before
  stable : calls.Pairwise fun made later => ∀ key, made.result = .ok key →
    later.call.passphrase = made.call.passphrase → later.call.Reads → later.result = .ok key

/-- The call has a passphrase, and the key that it makes can be encoded. -/
def KeyCall.Encodes (keys : ThrusshKeys K Entropy) (call : KeyCall K Entropy)
    (pem : ByteArray) : Prop :=
  ∃ passphrase, call.passphrase = .ok passphrase ∧
    keys.encode call.entropy call.generated passphrase.toUTF8 10000 = .ok pem

/-- The call finds the file, or cannot create one, or there is none and the key that it
makes gets into the file. -/
inductive KeyCall.Safe (keys : ThrusshKeys K Entropy) (file : KeyFile)
    (call : KeyCall K Entropy) : Prop where
  | found : KeyFile.pathExists file call → Safe keys file call
  | refused : ¬ call.create.isOk → Safe keys file call
  | stored {pem : ByteArray} : file = none → call.Encodes keys pem → call.write.isOk →
      pem.size ≤ call.written → Safe keys file call

namespace KeyFile

/-- What a call makes of a file that it finds. -/
def readKey (keys : ThrusshKeys K Entropy) (file : KeyFile) (call : KeyCall K Entropy) :
    Except Report K := do
  call.read
  let key ← (file.bind String.fromUTF8?).elim
    (.error (.msg "stream did not contain valid UTF-8")) .ok
  let passphrase ← call.passphrase
  keys.decode key (some passphrase)

/-- What a call does: it reads the file that it finds, or fails to create one, or creates
one and gets to its end, or to the write, or not even there. -/
inductive Runs (keys : ThrusshKeys K Entropy) (file : KeyFile) (call : KeyCall K Entropy) :
    KeyFile → Except Report K → Prop where
  | found : pathExists file call → Runs keys file call file (readKey keys file call)
  | refused {e : Report} : pathExists file call = false → ¬ call.create.isOk →
      Runs keys file call file (.error e)
  | stored {pem : ByteArray} : pathExists file call = false → call.create.isOk →
      call.Encodes keys pem → call.write.isOk →
      Runs keys file call (some (pem.extract 0 call.written)) (.ok call.generated)
  | interrupted {pem : ByteArray} {e : Report} : pathExists file call = false →
      call.create.isOk → call.Encodes keys pem → ¬ call.write.isOk →
      Runs keys file call (some (pem.extract 0 call.written)) (.error e)
  | unencoded {e : Report} : pathExists file call = false → call.create.isOk →
      (∀ pem, ¬ call.Encodes keys pem) → Runs keys file call (some ByteArray.empty) (.error e)

variable {keys : ThrusshKeys K Entropy} {file : KeyFile} {call : KeyCall K Entropy}

/-- A file that is found is read, and left as it is. -/
theorem reads (found : pathExists file call) :
    Effect.WP (getOrCreateExecutorKeypair keys call)
      (fun r file' => r = readKey keys file call ∧ file' = file) file := by
  rw [getOrCreateExecutorKeypair, readKey]
  simp only [Effect.WP.bind_iff, Effect.WP.get_iff, Effect.WP.ofExcept_iff, if_pos found,
    readToString, passphrase]
  cases call.read with
  | error e => exact ⟨rfl, trivial⟩
  | ok u =>
      cases file.bind String.fromUTF8? with
      | none => exact ⟨rfl, rfl⟩
      | some text =>
          cases call.passphrase with
          | error e => exact ⟨rfl, rfl⟩
          | ok passphrase => exact ⟨rfl, rfl⟩

theorem runs_getOrCreateExecutorKeypair :
    Effect.WP (getOrCreateExecutorKeypair keys call)
      (fun r file' => Runs keys file call file' r) file := by
  cases found : pathExists file call with
  | true =>
      refine (reads found).mono ?_
      rintro _ _ ⟨rfl, rfl⟩
      exact .found found
  | false =>
      rw [getOrCreateExecutorKeypair]
      simp only [Effect.WP.bind_iff, Effect.WP.get_iff, found, Bool.false_eq_true, if_false,
        Effect.WP.ofExcept_iff, Effect.WP.set_iff, Effect.WP.pure_iff, passphrase]
      cases created : call.create with
      | error e => exact .refused found (by simp [created])
      | ok u =>
          have created : call.create.isOk := by rw [created]; rfl
          cases phrase : call.passphrase with
          | error e => exact .unencoded found created (by simp [KeyCall.Encodes, phrase])
          | ok passphrase =>
              simp only
              cases encoded : keys.encode call.entropy call.generated passphrase.toUTF8 10000 with
              | error e =>
                  refine .unencoded found created ?_
                  rintro pem ⟨_, same, encodes⟩
                  cases phrase.symm.trans same
                  cases encoded.symm.trans encodes
              | ok pem =>
                  have encodes : call.Encodes keys pem := ⟨passphrase, phrase, encoded⟩
                  simp only
                  cases written : call.write with
                  | ok u => exact .stored found created encodes (by rw [written]; rfl)
                  | error e =>
                      exact .interrupted found created encodes
                        (by simp [written])

/-- The file holds the key, for those who have the passphrase. -/
def Remembers (keys : ThrusshKeys K Entropy) (file : KeyFile) (passphrase : Except Report String)
    (key : K) : Prop :=
  ∃ text phrase, file.bind String.fromUTF8? = some text ∧ passphrase = .ok phrase ∧
    keys.decode text (some phrase) = .ok key

theorem readKey_eq_ok {key : K} :
    readKey keys file call = .ok key ↔
      call.read.isOk ∧ Remembers keys file call.passphrase key := by
  rw [readKey, Remembers]
  cases call.read with
  | error e => simp [bind, Except.bind]
  | ok u =>
      cases file.bind String.fromUTF8? with
      | none => simp [bind, Except.bind]
      | some text =>
          cases call.passphrase with
          | error e => simp [bind, Except.bind]
          | ok phrase => simp [bind, Except.bind]

/-- A key that has been written in full is in the file. -/
theorem remembers_of_encodes {pem : ByteArray} (encodes : call.Encodes keys pem)
    (whole : pem.size ≤ call.written) :
    Remembers keys (some (pem.extract 0 call.written)) call.passphrase call.generated := by
  obtain ⟨phrase, same, encoded⟩ := encodes
  obtain ⟨text, utf8, decoded⟩ := keys.decode_encode encoded
  refine ⟨text, phrase, ?_, same, decoded⟩
  have all := ByteArray.extract_zero_max_size (a := pem) (i := call.written)
  rw [Nat.max_eq_left whole] at all
  rw [all, Option.bind_some, utf8]

end KeyFile

section Bootstrap

/-- The world of the bootstrap endpoint is what the call meets, and a write leaves all of its
bytes or none. -/
structure KeyCall.Meets (keys : ThrusshKeys KeyPair Entropy) (call : KeyCall KeyPair Entropy)
    (world : KeyWorld) : Prop where
  metadata : world.keyFile.metadata = call.metadata
  read : world.keyFile.read = call.read
  create : world.keyFile.create = call.create
  write : world.keyFile.writeAll = call.write
  passphrase : world.passphrase = call.passphrase
  generated : world.generatedKey = call.generated
  decode : ∀ text passphrase, world.decode text passphrase = keys.decode text (some passphrase)
  encode : ∀ passphrase, keys.encode call.entropy call.generated passphrase.toUTF8 10000 =
    (world.encode call.generated passphrase).map String.toUTF8
  whole : ∀ passphrase pem, world.encode call.generated passphrase = .ok pem →
    call.written = match call.write with
      | .ok _ => pem.toUTF8.size
      | .error _ => 0

/-- The same file is found. -/
theorem KeyCall.Meets.pathExists_eq {keys : ThrusshKeys KeyPair Entropy}
    {call : KeyCall KeyPair Entropy} {world : KeyWorld} (meets : call.Meets keys world)
    (file : Option String) :
    KeyFile.pathExists (file.map String.toUTF8) call = (world.keyFile.found file).isSome := by
  rw [KeyFile.pathExists, FileAccess.found, meets.metadata, Option.isSome_map]
  cases call.metadata.isOk with
  | true => exact Bool.and_true _
  | false => exact Bool.and_false _

/-- The bootstrap endpoint sees the same outcome and the same file. -/
theorem Keys.getOrCreateExecutorKeypair_refines {keys : ThrusshKeys KeyPair Entropy}
    {call : KeyCall KeyPair Entropy} {world : KeyWorld} (meets : call.Meets keys world)
    (files : KeyFiles) :
    Effect.WP (KeyFile.getOrCreateExecutorKeypair keys call)
      (fun result file => Effect.WP (Keys.getOrCreateExecutorKeypair world)
        (fun result' files' => result' = result.mapError .error ∧
          files'.executorKey.map String.toUTF8 = file) files)
      (files.executorKey.map String.toUTF8) := by
  rw [KeyFile.getOrCreateExecutorKeypair, Keys.getOrCreateExecutorKeypair]
  cases found : world.keyFile.found files.executorKey with
  | some text =>
      have stored : files.executorKey = some text := FileAccess.file_of_found found
      rw [stored] at found
      have exist : KeyFile.pathExists (some text.toUTF8) call = true :=
        (meets.pathExists_eq (some text)).trans (congrArg Option.isSome found)
      have utf8 : String.fromUTF8? text.toUTF8 = some text := Text.fromUTF8?_eq_some.mpr rfl
      simp only [Effect.WP.bind_iff, Effect.WP.get_iff, Effect.WP.ofExcept_iff, exist, if_true,
        KeyFile.readToString, KeyFile.passphrase, found, stored, propagate_iff, Option.map_some,
        meets.read, meets.passphrase, meets.decode, Option.bind_some, utf8, Effect.WP.pure_iff]
      cases call.read with
      | error e => exact ⟨rfl, trivial⟩
      | ok u =>
          cases call.passphrase with
          | error e => exact ⟨rfl, trivial⟩
          | ok phrase => exact ⟨rfl, trivial⟩
  | none =>
      have missing : KeyFile.pathExists (files.executorKey.map String.toUTF8) call = false :=
        (meets.pathExists_eq files.executorKey).trans (congrArg Option.isSome found)
      simp only [Effect.WP.bind_iff, Effect.WP.get_iff, Effect.WP.ofExcept_iff, missing,
        Bool.false_eq_true, if_false, KeyFile.passphrase, found, propagate_iff, Effect.WP.set_iff,
        meets.create, meets.passphrase, meets.encode, meets.write, meets.generated,
        Effect.WP.modify_iff]
      cases call.create with
      | error e => exact ⟨rfl, trivial⟩
      | ok u =>
          cases call.passphrase with
          | error e => exact ⟨rfl, rfl⟩
          | ok phrase =>
              simp only [Except.mapError]
              cases encoded : world.encode call.generated phrase with
              | error e => exact ⟨rfl, rfl⟩
              | ok pem =>
                  have whole := meets.whole phrase pem encoded
                  simp only [Except.map]
                  cases written : call.write with
                  | error e =>
                      have nothing : call.written = 0 := by rw [whole, written]
                      refine ⟨rfl, ?_⟩
                      rw [nothing, ByteArray.extract_same]
                      rfl
                  | ok u =>
                      have all : call.written = pem.toUTF8.size := by rw [whole, written]
                      refine ⟨rfl, ?_⟩
                      rw [all, ByteArray.extract_zero_size]
                      rfl

end Bootstrap

section Runs

variable {keys : ThrusshKeys K Entropy} {s t : KeyStore K Entropy} {call : KeyCall K Entropy}
  {calls : List (KeyCall.Made K Entropy)} {made : KeyCall.Made K Entropy}

theorem KeyStore.runs_of_step (stepped : KeyStore.step keys s call = some t) :
    ∃ file result, KeyFile.Runs keys s.file call file result ∧
      t = ⟨file, s.calls ++ [⟨call, s.file, file, result⟩]⟩ :=
  ⟨_, _, KeyFile.runs_getOrCreateExecutorKeypair, (Option.some.inj stepped).symm⟩

theorem KeyCall.Encodes.unique {pem pem' : ByteArray} (h : call.Encodes keys pem)
    (h' : call.Encodes keys pem') : pem = pem' := by
  obtain ⟨phrase, same, encoded⟩ := h
  obtain ⟨phrase', same', encoded'⟩ := h'
  cases same.symm.trans same'
  exact Except.ok.inj (encoded.symm.trans encoded')

/-- What a safe call that gets to create a file is known to be. -/
theorem KeyCall.Safe.stores {file : KeyFile} (safe : call.Safe keys file)
    (missing : KeyFile.pathExists file call = false) (created : call.create.isOk) :
    file = none ∧ call.write.isOk ∧
      ∃ pem, call.Encodes keys pem ∧ pem.size ≤ call.written := by
  cases safe with
  | found found => exact absurd (missing.symm.trans found) (by decide)
  | refused refused => exact absurd created refused
  | stored absent encodes write whole => exact ⟨absent, write, _, encodes, whole⟩

theorem AtomicAndStable.append (history : AtomicAndStable calls)
    (atomic : ¬ made.result.isOk → made.after = made.before)
    (stable : ∀ earlier ∈ calls, ∀ key, earlier.result = .ok key →
      made.call.passphrase = earlier.call.passphrase → made.call.Reads →
        made.result = .ok key) :
    AtomicAndStable (calls ++ [made]) where
  atomic := by
    intro m hm
    obtain hm | hm := List.mem_append.mp hm
    · exact history.atomic m hm
    · cases List.mem_singleton.mp hm
      exact atomic
  stable := by
    refine List.pairwise_append.mpr ⟨history.stable, List.pairwise_singleton _ _, ?_⟩
    intro earlier he later hl
    cases List.mem_singleton.mp hl
    exact stable earlier he

/-- Every key that has been returned is in the file. -/
structure KeyStore.Kept (keys : ThrusshKeys K Entropy) (s : KeyStore K Entropy) : Prop where
  history : AtomicAndStable s.calls
  remembered : ∀ made ∈ s.calls, ∀ key, made.result = .ok key →
    KeyFile.Remembers keys s.file made.call.passphrase key

theorem KeyStore.Kept.append (kept : s.Kept keys) {file : KeyFile} {result : Except Report K}
    (atomic : ¬ result.isOk → file = s.file)
    (stable : ∀ key, KeyFile.Remembers keys s.file call.passphrase key → call.Reads →
      result = .ok key)
    (older : ∀ passphrase key, KeyFile.Remembers keys s.file passphrase key →
      KeyFile.Remembers keys file passphrase key)
    (newer : ∀ key, result = .ok key → KeyFile.Remembers keys file call.passphrase key) :
    KeyStore.Kept keys ⟨file, s.calls ++ [⟨call, s.file, file, result⟩]⟩ where
  history := kept.history.append atomic fun earlier he key returned same => by
    refine stable key ?_
    rw [show call.passphrase = earlier.call.passphrase from same]
    exact kept.remembered earlier he key returned
  remembered := by
    intro made hm key returned
    obtain hm | hm := List.mem_append.mp hm
    · exact older _ _ (kept.remembered made hm key returned)
    · cases List.mem_singleton.mp hm
      exact newer key returned

/-- A call keeps the invariant if it is safe. -/
theorem KeyStore.kept_step (safe : call.Safe keys s.file)
    (stepped : KeyStore.step keys s call = some t) (kept : s.Kept keys) : t.Kept keys := by
  obtain ⟨file, result, runs, rfl⟩ := KeyStore.runs_of_step stepped
  cases runs with
  | found found =>
      refine kept.append (fun _ => rfl) (fun key remembers reads => ?_) (fun _ _ h => h) ?_
      · exact KeyFile.readKey_eq_ok.mpr ⟨reads.read, remembers⟩
      · exact fun key returned => (KeyFile.readKey_eq_ok.mp returned).2
  | refused missing _ =>
      refine kept.append (fun _ => rfl) (fun key remembers reads => ?_) (fun _ _ h => h) nofun
      obtain ⟨text, _, inFile, _⟩ := remembers
      obtain ⟨pem, present, _⟩ := Option.bind_eq_some_iff.mp inFile
      rw [KeyFile.pathExists, present, Option.isSome_some, Bool.true_and, reads.metadata] at missing
      exact nomatch missing
  | stored missing created encodes _ =>
      obtain ⟨absent, _, pem, encodes', whole⟩ := safe.stores missing created
      cases encodes.unique encodes'
      have forgets : ∀ passphrase key, ¬ KeyFile.Remembers keys s.file passphrase key := by
        rintro passphrase key ⟨text, _, inFile, _⟩
        rw [absent] at inFile
        exact nomatch inFile
      refine kept.append (fun failed => absurd rfl failed)
        (fun key remembers => absurd remembers (forgets _ key))
        (fun _ key remembers => absurd remembers (forgets _ key)) ?_
      rintro key ⟨⟩
      exact KeyFile.remembers_of_encodes encodes whole
  | interrupted missing created _ failed =>
      exact absurd (safe.stores missing created).2.1 failed
  | unencoded missing created unencoded =>
      obtain ⟨_, _, pem, encodes, _⟩ := safe.stores missing created
      exact absurd encodes (unencoded pem)

/-- A call that creates the file and does not get a key into it has changed it and fails. -/
theorem KeyStore.not_atomicAndStable (absent : s.file = none) (created : call.create.isOk)
    (lost : ¬ (call.write.isOk ∧ ∃ pem, call.Encodes keys pem))
    (stepped : KeyStore.step keys s call = some t) : ¬ AtomicAndStable t.calls := by
  obtain ⟨file, result, runs, rfl⟩ := KeyStore.runs_of_step stepped
  intro history
  have atomic := history.atomic _ (List.mem_append_right _ (List.mem_singleton_self _))
  rw [absent] at atomic runs
  cases runs with
  | found found => exact nomatch found
  | refused _ refused => exact refused created
  | stored _ _ encodes write => exact lost ⟨write, _, encodes⟩
  | interrupted => exact nomatch atomic nofun
  | unencoded => exact nomatch atomic nofun

/-- The empty file is found and rejected from then on. -/
theorem KeyStore.never_again (created : call.create.isOk)
    (unencoded : ∀ pem, ¬ call.Encodes keys pem)
    (stepped : KeyStore.step keys { file := none } call = some s)
    (run : Reachable (KeyStore.step keys) (fun _ call => call.metadata.isOk) s t) :
    ∀ made ∈ t.calls, ¬ made.result.isOk := by
  have initially : s.file = some ByteArray.empty ∧ ∀ made ∈ s.calls, ¬ made.result.isOk := by
    obtain ⟨file, result, runs, rfl⟩ := KeyStore.runs_of_step stepped
    cases runs with
    | found found => exact absurd found Bool.false_ne_true
    | refused _ refused => exact absurd created refused
    | stored _ _ encodes => exact absurd encodes (unencoded _)
    | interrupted _ _ encodes => exact absurd encodes (unencoded _)
    | unencoded => exact ⟨rfl, by simp⟩
  refine (run.invariant (I := fun u => u.file = some ByteArray.empty ∧
    ∀ made ∈ u.calls, ¬ made.result.isOk) initially ?_).2
  rintro u later v metadata stepped ⟨empty, failed⟩
  obtain ⟨file, result, runs, rfl⟩ := KeyStore.runs_of_step stepped
  have found : KeyFile.pathExists u.file later = true := by
    rw [KeyFile.pathExists, empty, metadata]
    rfl
  cases runs with
  | found =>
      refine ⟨empty, List.forall_mem_append.mpr ⟨failed, ?_⟩⟩
      rw [List.forall_mem_singleton]
      cases returned : KeyFile.readKey keys u.file later with
      | error e => exact Bool.false_ne_true
      | ok key =>
          obtain ⟨_, text, phrase, inFile, _, decoded⟩ := KeyFile.readKey_eq_ok.mp returned
          rw [empty, Option.bind_some, Text.fromUTF8?_eq_some] at inFile
          obtain rfl : text = "" := String.toByteArray_inj.mp inFile
          have rejected := keys.decode_empty (some phrase)
          rw [decoded] at rejected
          exact absurd rejected (by simp)
  | refused missing | stored missing | interrupted missing | unencoded missing =>
      exact absurd (found.symm.trans missing) (by decide)

end Runs

/-- Calls of `get_or_create_executor_keypair` are atomic, and the key is stable, in every
run of safe calls. A call that creates the file and then fails is not atomic, and if it has
stored nothing, no later call that finds the file succeeds. -/
theorem keys_atomicAndStable (keys : ThrusshKeys K Entropy) :
    (∀ file s, Reachable (KeyStore.step keys) (fun s call => call.Safe keys s.file) { file } s →
      AtomicAndStable s.calls) ∧
    (∀ s t call, s.file = none → call.create.isOk →
      ¬ (call.write.isOk ∧ ∃ pem, call.Encodes keys pem) →
      KeyStore.step keys s call = some t → ¬ AtomicAndStable t.calls) ∧
    (∀ s t call, call.create.isOk → (∀ pem, ¬ call.Encodes keys pem) →
      KeyStore.step keys { file := none } call = some s →
      Reachable (KeyStore.step keys) (fun _ call => call.metadata.isOk) s t →
      ∀ made ∈ t.calls, ¬ made.result.isOk) := by
  refine ⟨fun file s run => ?_, fun s t call absent created lost stepped => ?_,
    fun s t call created unencoded stepped run => ?_⟩
  · have initially : KeyStore.Kept keys { file } := ⟨⟨nofun, .nil⟩, nofun⟩
    exact (run.invariant initially fun _ _ _ safe => KeyStore.kept_step safe).history
  · exact KeyStore.not_atomicAndStable absent created lost stepped
  · exact KeyStore.never_again created unencoded stepped run

section Example

/-- A key file that shows the passphrase and the key. -/
def ThrusshKeys.plain : ThrusshKeys String Unit where
  encode _ key passphrase _ := .ok (passphrase ++ ("\n" ++ key).toUTF8)
  decode text passphrase :=
    let header := (passphrase.getD "" ++ "\n").toList
    if text.toList.take header.length = header then
      .ok (String.ofList (text.toList.drop header.length))
    else
      .error (.msg "Could not read key")
  decode_encode := by
    rintro _ key passphrase _ pem ⟨⟩
    refine ⟨passphrase ++ ("\n" ++ key), Text.fromUTF8?_eq_some.mpr ?_, ?_⟩
    · exact String.toByteArray_append
    · have header : (passphrase ++ ("\n" ++ key)).toList =
          (passphrase ++ "\n").toList ++ key.toList := by simp
      simp only [Option.getD_some, header, List.take_left, List.drop_left, if_true,
        String.ofList_toList]
  decode_empty passphrase := by simp

/-- A call that nothing goes wrong for. -/
def KeyCall.smooth : KeyCall String Unit where
  metadata := .ok ()
  read := .ok ()
  create := .ok ()
  passphrase := .ok "secret"
  generated := "ed25519"
  entropy := ()
  write := .ok ()
  written := 4096

/-- The controller is started without the variable. -/
def KeyCall.unset : KeyCall String Unit :=
  { smooth with passphrase := .error (.msg "environment variable not found") }

/-- The key store after some calls, of which the first finds no file. -/
def KeyStore.afterCalls (calls : List (KeyCall String Unit)) : Option (KeyStore String Unit) :=
  Reachable.run (KeyStore.step ThrusshKeys.plain) { file := none } calls

theorem keys_atomicAndStable_restart :
    (∃ s, KeyStore.afterCalls [.smooth, .smooth] = some s ∧ AtomicAndStable s.calls ∧
      s.calls.map (·.result) = [.ok "ed25519", .ok "ed25519"]) ∧
    (∃ s, KeyStore.afterCalls [.unset] = some s ∧ ¬ AtomicAndStable s.calls) ∧
    (∃ s, KeyStore.afterCalls [.unset, .smooth] = some s ∧
      ∀ made ∈ s.calls, ¬ made.result.isOk) := by
  obtain ⟨safe, lost, never⟩ := keys_atomicAndStable ThrusshKeys.plain
  have unencoded : ∀ pem, ¬ KeyCall.unset.Encodes ThrusshKeys.plain pem := by
    rintro pem ⟨_, ⟨⟩, _⟩
  refine ⟨⟨_, rfl, safe none _ ?_, by decide +kernel⟩, ⟨_, rfl, ?_⟩, ⟨_, rfl, ?_⟩⟩
  · have stored : KeyCall.smooth.Safe ThrusshKeys.plain none :=
      .stored rfl ⟨"secret", rfl, rfl⟩ rfl (by decide +kernel)
    exact Reachable.step (Reachable.step .start stored rfl)
      (.found rfl : KeyCall.smooth.Safe _ _) rfl
  · exact lost { file := none } _ .unset rfl rfl (fun h => h.2.elim unencoded) rfl
  · exact never _ _ .unset rfl unencoded rfl (Reachable.start.step (a := .smooth) rfl rfl)

/-- The first start has no passphrase and leaves an empty file, and the second start,
which has one, cannot read a key from it. -/
theorem keys_not_atomicAndStable :
    ∃ s, KeyStore.afterCalls [.unset, .smooth] = some s ∧ s.file = some ByteArray.empty ∧
      s.calls.map (·.result) =
        [.error (.msg "environment variable not found"), .error (.msg "Could not read key")] ∧
      ¬ AtomicAndStable s.calls := by
  refine ⟨_, rfl, rfl, by decide +kernel, fun history => ?_⟩
  exact nomatch history.atomic _ List.mem_cons_self nofun

end Example

end There
