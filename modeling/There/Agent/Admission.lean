import There.Agent.Trust
import There.Controller.KeyStore

/-!
# Whom the agent lets in

The controller makes its token and its key before it serves anybody. As long as nobody
replaces its files, and they can be looked up, it tells everybody the same key afterwards,
and this is the key that its jobs log in with.

An agent that presents the token of the controller is never refused, so nothing but the line
of this key is added to its file. The line may be appended to a last line that has no line
feed. Then it is added once more in the next round, so two rounds are enough for the jobs to
be let in, and for good.
-/

namespace There

open Text Effect Concurrent

namespace Controller

/-- `main` up to the point where it serves. It prints the token, and fails if the network
interfaces cannot be listed. -/
def main (world : KeyWorld) (interfaces : Except Report Unit) :
    EStateM Abort KeyFiles String := do
  let _clientKey ← Keys.getOrCreateExecutorKeypair world
  let token ← Keys.getOrCreateToken world
  propagate interfaces
  pure token

end Controller

/-- The environment of the controller has the passphrase, and reading a key pair undoes
writing it. -/
structure KeyWorld.Uses (decode : String → String → Except Report KeyPair) (passphrase : String)
    (world : KeyWorld) : Prop where
  passphrase_eq : world.passphrase = .ok passphrase
  decode_eq : world.decode = decode
  decode_encode : ∀ key pem, world.encode key passphrase = .ok pem → decode pem passphrase = .ok key

/-- The files of the controller can be looked up as well. -/
structure KeyWorld.Keeps (decode : String → String → Except Report KeyPair) (passphrase : String)
    (world : KeyWorld) : Prop extends world.Uses decode passphrase where
  tokenFile : world.tokenFile.metadata.isOk
  keyFile : world.keyFile.metadata.isOk

/-- The files hold this token and this key. -/
structure KeyFiles.Hold (decode : String → String → Except Report KeyPair) (passphrase : String)
    (token : String) (key : KeyPair) (files : KeyFiles) : Prop where
  token : files.token = some token
  key : ∃ pem, files.executorKey = some pem ∧ decode pem passphrase = .ok key

section Files

variable {decode : String → String → Except Report KeyPair} {passphrase token : String}
variable {key : KeyPair} {files : KeyFiles} {world : KeyWorld}

/-- A key that is returned is in the file. -/
theorem getOrCreateExecutorKeypair_stores (uses : world.Uses decode passphrase)
    (files : KeyFiles) :
    Returns (Keys.getOrCreateExecutorKeypair world) (fun key files' =>
      ∃ pem, files'.executorKey = some pem ∧ decode pem passphrase = .ok key) files := by
  refine Returns.get_bind ?_
  cases found : world.keyFile.found files.executorKey with
  | some pem =>
      refine propagate_bind fun _ _ => propagate_bind fun phrase same => ?_
      obtain rfl : passphrase = phrase := Except.ok.inj (uses.passphrase_eq.symm.trans same)
      rw [uses.decode_eq]
      cases decoded : decode pem passphrase with
      | ok key => exact Returns.pure ⟨pem, FileAccess.file_of_found found, decoded⟩
      | error e => exact Returns.throw _
  | none =>
      refine propagate_bind fun _ _ => Returns.modify_bind ?_
      refine propagate_bind fun phrase same => propagate_bind fun pem encoded => ?_
      obtain rfl : passphrase = phrase := Except.ok.inj (uses.passphrase_eq.symm.trans same)
      refine propagate_bind fun _ _ => Returns.modify_bind (Returns.pure ?_)
      exact ⟨pem, rfl, uses.decode_encode _ pem encoded⟩

/-- The key is left alone when the token is asked for. -/
theorem getOrCreateToken_stores (world : KeyWorld) (files : KeyFiles) :
    Returns (Keys.getOrCreateToken world) (fun token files' =>
      files'.token = some token ∧ files'.executorKey = files.executorKey) files := by
  refine Returns.get_bind ?_
  cases found : world.tokenFile.found files.token with
  | some token =>
      exact propagate_bind fun _ _ => Returns.pure ⟨FileAccess.file_of_found found, rfl⟩
  | none =>
      refine propagate_bind fun _ _ => Returns.modify_bind ?_
      exact propagate_bind fun _ _ => Returns.modify_bind (Returns.pure ⟨rfl, rfl⟩)

/-- A controller that serves has a token and a key. -/
theorem Controller.main_returns (uses : world.Uses decode passphrase)
    (interfaces : Except Report Unit) (files : KeyFiles) :
    Returns (Controller.main world interfaces) (fun token files' =>
      ∃ key, files'.Hold decode passphrase token key) files := by
  refine Returns.bind (getOrCreateExecutorKeypair_stores uses files) ?_
  rintro key files' ⟨pem, stored, decoded⟩
  refine Returns.bind (getOrCreateToken_stores world files') ?_
  rintro token files'' ⟨printed, kept⟩
  refine propagate_bind fun _ _ => Returns.pure ?_
  exact ⟨key, printed, pem, kept.trans stored, decoded⟩

/-- The files are only read, and this key is read from them. -/
theorem getOrCreateExecutorKeypair_reads (hold : files.Hold decode passphrase token key)
    (keeps : world.Keeps decode passphrase) :
    WP (Keys.getOrCreateExecutorKeypair world)
      (fun r files' => files' = files ∧ ∀ key', r = .ok key' → key' = key) files := by
  obtain ⟨-, pem, stored, decoded⟩ := hold
  have found : world.keyFile.found files.executorKey = some pem :=
    (FileAccess.found_of_metadata keeps.keyFile).trans stored
  rw [Keys.getOrCreateExecutorKeypair]
  simp only [WP.bind_iff, WP.get_iff, found, propagate_iff, keeps.passphrase_eq, keeps.decode_eq]
  cases world.keyFile.read with
  | error e => exact ⟨trivial, fun _ returned => by cases returned⟩
  | ok u =>
      refine ⟨trivial, fun key' returned => ?_⟩
      rw [decoded] at returned
      exact (Except.ok.inj returned).symm

theorem getOrCreateToken_reads (hold : files.Hold decode passphrase token key)
    (keeps : world.Keeps decode passphrase) :
    WP (Keys.getOrCreateToken world)
      (fun r files' => files' = files ∧ ∀ token', r = .ok token' → token' = token) files := by
  have found : world.tokenFile.found files.token = some token :=
    (FileAccess.found_of_metadata keeps.tokenFile).trans hold.token
  rw [Keys.getOrCreateToken]
  simp only [WP.bind_iff, WP.get_iff, found, propagate_iff]
  cases world.tokenFile.read with
  | error e => exact ⟨trivial, fun _ returned => by cases returned⟩
  | ok u => exact ⟨rfl, fun token' returned => (Except.ok.inj returned).symm⟩

/-- The same file, and a panic for an error. -/
theorem unwrapped_reads {σ α : Type} {site : String} {p : EStateM Abort σ α} {t : σ}
    {value : α} (reads : WP p (fun r t' => t' = t ∧ ∀ a, r = .ok a → a = value) t) :
    WP (unwrapped site p) (fun r t' => t' = t ∧ ∀ a, r = .ok a → a = value) t := by
  change _ ∧ _ at reads
  change finalState (EStateM.tryCatch p _ t) = t ∧
    ∀ a, outcome (EStateM.tryCatch p _ t) = .ok a → a = value
  rw [EStateM.tryCatch]
  revert reads
  cases p t with
  | ok b t' => exact id
  | error e t' => exact fun reads => ⟨reads.1, fun _ returned => by cases returned⟩

/-- Whoever asks, the files are only read, and nobody is told another key. The right token
is not refused. -/
theorem respond_reads (hold : files.Hold decode passphrase token key)
    (keeps : world.Keeps decode passphrase) (query : BootstrapQuery) :
    WP (respond world query) (fun r files' => files' = files ∧ ∀ response, r = .ok response →
      (response.status = 200 → response.body = authorizedKey key) ∧
        (query = .token token → response.status = 200)) files := by
  cases query with
  | rejected response refused =>
      refine ⟨rfl, ?_⟩
      rintro response' ⟨⟩
      exact ⟨fun accepted => absurd accepted refused, fun same => by cases same⟩
  | token presented =>
      rw [respond, bootstrap]
      refine WP.bind (unwrapped_reads (getOrCreateToken_reads hold keeps)) ?_ ?_
      · rintro token' files' ⟨rfl, same⟩
        obtain rfl := same token' rfl
        by_cases right : token' = presented
        · rw [if_pos (beq_iff_eq.mpr right)]
          refine WP.bind (unwrapped_reads (getOrCreateExecutorKeypair_reads hold keeps)) ?_ ?_
          · rintro key' files'' ⟨rfl, same⟩
            obtain rfl := same key' rfl
            refine ⟨rfl, ?_⟩
            rintro response ⟨⟩
            exact ⟨fun _ => rfl, fun _ => rfl⟩
          · rintro e files'' ⟨rfl, -⟩
            exact ⟨rfl, fun _ returned => by cases returned⟩
        · rw [if_neg (mt beq_iff_eq.mp right)]
          refine ⟨rfl, ?_⟩
          rintro response ⟨⟩
          refine ⟨fun accepted => absurd accepted (by decide), fun same => ?_⟩
          exact absurd (BootstrapQuery.token.inj same).symm right
      · rintro e files' ⟨rfl, -⟩
        exact ⟨rfl, fun _ returned => by cases returned⟩

end Files

/-- The agent is told something with status 200, and can write all of it. -/
structure Exchange.Good (e : Exchange) : Prop where
  accepted : ∃ response ∈ e.received, response.status = 200
  appends : ∀ line, e.host.appends line = line ++ "\n"

namespace Deployment

section Runs

variable {decode : String → String → Except Report KeyPair} {passphrase token : String}
variable {key : KeyPair} {files : KeyFiles} {d d' : Deployment}

/-- The controller keeps its files, which can be looked up, and its environment. -/
def Action.Keeps (decode : String → String → Except Report KeyPair) (passphrase : String) :
    Action → Prop
  | .start => True
  | .round request _ => ∀ sent ∈ request.toOption, sent.2.Keeps decode passphrase
  | .visit _ world => world.Keeps decode passphrase
  | .replace _ => False

/-- The agent has been started with the token of the controller. -/
def Action.Presents (token : String) : Action → Prop
  | .round request _ => ∀ sent ∈ request.toOption, sent.1 = .token token
  | _ => True

/-- What an exchange can be as long as the files of the controller stay. -/
structure Told (decode : String → String → Except Report KeyPair) (passphrase token : String)
    (key : KeyPair) (d : Deployment) : Prop where
  hold : d.files.Hold decode passphrase token key
  told : ∀ e ∈ d.history, ∀ response ∈ e.received,
    (response.status = 200 → response.body = authorizedKey key) ∧
      ((∀ query ∈ e.query, query = .token token) → response.status = 200)

/-- What comes back to the agent while the controller only reads its files. -/
theorem requested_reads (hold : files.Hold decode passphrase token key)
    {request : Except Report (BootstrapQuery × KeyWorld)}
    (keeps : ∀ sent ∈ request.toOption, sent.2.Keeps decode passphrase) :
    (requested files request).2 = files ∧
      ∀ response, (requested files request).1 = .ok response →
        (response.status = 200 → response.body = authorizedKey key) ∧
          ((∀ query ∈ request.toOption.map (·.1), query = .token token) →
            response.status = 200) := by
  cases request with
  | error e => exact ⟨rfl, fun _ answered => by cases answered⟩
  | ok sent =>
      obtain ⟨query, world⟩ := sent
      obtain ⟨kept, told⟩ := respond_reads hold (keeps _ rfl) query
      simp only [requested]
      revert kept told
      cases respond world query files with
      | ok response files' =>
          rintro rfl told
          refine ⟨rfl, ?_⟩
          rintro _ ⟨⟩
          obtain ⟨line, status⟩ := told response rfl
          exact ⟨line, fun same => status (same query rfl)⟩
      | error e files' =>
          rintro rfl -
          exact ⟨rfl, fun _ answered => by cases answered⟩

theorem Told.step (told : d.Told decode passphrase token key) {act : Action}
    (keeps : act.Keeps decode passphrase) (h : d.step act = some d') :
    d'.Told decode passphrase token key := by
  cases act with
  | start =>
      simp only [Deployment.step] at h
      split at h
      · cases h
      · cases h
        exact ⟨told.hold, told.told⟩
  | visit query world =>
      cases h
      have kept := (respond_reads told.hold keeps query).1
      exact ⟨by simpa only [kept] using told.hold, told.told⟩
  | replace files => cases keeps
  | round request host =>
      simp only [Deployment.step] at h
      split at h
      · cases h
        obtain ⟨kept, answers⟩ := requested_reads told.hold keeps
        refine ⟨by simpa only [kept] using told.hold, fun e member => ?_⟩
        rcases List.mem_append.mp member with old | new
        · exact told.told e old
        · rw [List.mem_singleton.mp new]
          exact fun response received => answers response (Round.get_of_received received)
      · cases h

/-- The agent is never told anything but this line. Two good rounds in a row have made it a
line of the file, and one has made it a line or has ended the last line. -/
structure Settles (line : String) (d : Deployment) : Prop where
  told : ∀ e ∈ d.history, ∀ response ∈ e.received, response.body = line
  twice : ∀ e₁ e₂, [e₁, e₂] <:+: d.history → e₁.Good → e₂.Good → line ∈ lines d.authorizedKeys
  once : ∀ e, [e] <:+ d.history → e.Good → line ∈ lines d.authorizedKeys ∨ Ended d.authorizedKeys

theorem concat_suffix_concat {α : Type} {xs ys : List α} {x y : α} :
    xs ++ [x] <:+ ys ++ [y] ↔ x = y ∧ xs <:+ ys := by
  rw [List.suffix_concat_iff]
  constructor
  · rintro (empty | ⟨before, eq, suffix⟩)
    · exact absurd empty (List.concat_ne_nil x xs)
    · obtain ⟨rfl, last⟩ := List.append_inj' eq rfl
      exact ⟨List.singleton_inj.mp last, suffix⟩
  · rintro ⟨rfl, suffix⟩
    exact .inr ⟨xs, rfl, suffix⟩

theorem Settles.append {line : String} (settles : d.Settles line) {e : Exchange}
    (free : '\n' ∉ line.toList) (same : readBack line = line)
    (told : ∀ response ∈ e.received, response.body = line)
    (history : d'.history = d.history ++ [e])
    (after : d'.authorizedKeys = match e.received with
      | none => d.authorizedKeys
      | some response =>
          if response.body ∈ lines d.authorizedKeys then d.authorizedKeys
          else d.authorizedKeys ++ e.host.appends response.body) : d'.Settles line := by
  have told' : ∀ e' ∈ d'.history, ∀ response ∈ e'.received, response.body = line := by
    intro e' member
    rw [history] at member
    rcases List.mem_append.mp member with old | new
    · exact settles.told e' old
    · rw [List.mem_singleton.mp new]
      exact told
  by_cases there : line ∈ lines d.authorizedKeys
  · have kept : d'.authorizedKeys = d.authorizedKeys := by
      rw [after]
      cases received : e.received with
      | none => rfl
      | some response => exact if_pos (told response received ▸ there)
    rw [← kept] at there
    exact ⟨told', fun _ _ _ _ _ => there, fun _ _ _ => .inl there⟩
  -- A good round that does not find the line writes it.
  have writes : e.Good → d'.authorizedKeys = d.authorizedKeys ++ line ++ "\n" := by
    rintro ⟨⟨response, received, -⟩, appends⟩
    obtain rfl := told response received
    rw [after, received]
    simp only [if_neg there, appends, String.append_assoc]
  refine ⟨told', fun e₁ e₂ pair good₁ good₂ => ?_, fun e' last good => ?_⟩
  · rw [history, List.infix_concat_iff] at pair
    rcases pair with last | old
    · have last : [e₁] ++ [e₂] <:+ d.history ++ [e] := last
      obtain ⟨rfl, before⟩ := concat_suffix_concat.mp last
      have ended := (settles.once e₁ before good₁).resolve_left there
      rw [writes good₂, lines_write ended free, same]
      exact List.mem_append_right _ (List.mem_singleton_self line)
    · exact absurd (settles.twice e₁ e₂ old good₁ good₂) there
  · have last : [] ++ [e'] <:+ d.history ++ [e] := history ▸ last
    obtain ⟨rfl, -⟩ := concat_suffix_concat.mp last
    rw [writes good]
    exact .inr (ended_write _ _)

theorem Settles.step {line : String} (settles : d.Settles line) {act : Action}
    (free : '\n' ∉ line.toList) (same : readBack line = line) (h : d.step act = some d')
    (told : ∀ e ∈ d'.history, ∀ response ∈ e.received, response.body = line) :
    d'.Settles line := by
  cases act with
  | start =>
      simp only [Deployment.step] at h
      split at h
      · cases h
      · cases h
        exact ⟨settles.told, settles.twice, settles.once⟩
  | visit query world | replace files =>
      cases h
      exact ⟨settles.told, settles.twice, settles.once⟩
  | round request host =>
      simp only [Deployment.step] at h
      split at h
      · cases h
        refine settles.append free same (told _ (List.mem_append_right _ List.mem_cons_self)) rfl ?_
        exact Agent.finalState_round _ _
      · cases h

/-- What the agent presents is recorded. -/
theorem presents_step (presented : ∀ e ∈ d.history, ∀ query ∈ e.query, query = .token token)
    {act : Action} (presents : act.Presents token) (h : d.step act = some d') :
    ∀ e ∈ d'.history, ∀ query ∈ e.query, query = .token token := by
  cases act with
  | start =>
      simp only [Deployment.step] at h
      split at h
      · cases h
      · cases h
        exact presented
  | visit query world | replace files =>
      cases h
      exact presented
  | round request host =>
      simp only [Deployment.step] at h
      split at h
      · cases h
        intro e member
        rcases List.mem_append.mp member with old | new
        · exact presented e old
        · rw [List.mem_singleton.mp new]
          intro query asked
          obtain ⟨sent, was, rfl⟩ := Option.map_eq_some_iff.mp asked
          exact presents sent was
      · cases h

/-- The line of a key is read back as it is written. -/
theorem authorizedKey_plain (free : '\n' ∉ key.publicKeyBase64.toList) :
    '\n' ∉ (authorizedKey key).toList ∧ readBack (authorizedKey key) = authorizedKey key := by
  have outer : '\n' ∉ "ssh-ed25519 ".toList ∧ '\n' ∉ " there-controller".toList := by decide
  refine ⟨?_, readBack_append (by decide) (by decide)⟩
  simp only [authorizedKey, String.toList_append, List.mem_append, not_or]
  exact ⟨⟨outer.1, free⟩, outer.2⟩

/-- A controller that has started. -/
structure Serves (decode : String → String → Except Report KeyPair) (passphrase token : String)
    (d : Deployment) : Prop where
  started : ∃ world interfaces files, world.Uses decode passphrase ∧
    outcome (Controller.main world interfaces files) = .ok token ∧
    d.files = finalState (Controller.main world interfaces files)
  fresh : d.history = []

theorem Serves.told {start : Deployment} (serves : start.Serves decode passphrase token) :
    ∃ key, ∀ d, Reachable step (fun _ act => act.Keeps decode passphrase) start d →
      d.Told decode passphrase token key := by
  obtain ⟨⟨world, interfaces, files, uses, started, same⟩, fresh⟩ := serves
  obtain ⟨key, hold⟩ := Controller.main_returns uses interfaces files token started
  have initially : start.Told decode passphrase token key := ⟨same ▸ hold, by simp [fresh]⟩
  refine ⟨key, fun d run => ?_⟩
  exact run.invariant initially fun _ _ _ keeps taken inv => inv.step keeps taken

/-- A job that asks for the key gets the one that the files hold, with all that such a call
meets in view. -/
theorem executorKeypair_of_told {Entropy : Type} {keys : ThrusshKeys KeyPair Entropy}
    {call : KeyCall KeyPair Entropy} {world : KeyWorld}
    (told : d.Told decode passphrase token key) (keeps : world.Keeps decode passphrase)
    (meets : call.Meets keys world) {key' : KeyPair}
    (returned : outcome (KeyFile.getOrCreateExecutorKeypair keys call
      (d.files.executorKey.map String.toUTF8)) = .ok key') : key' = key := by
  have refines := Keys.getOrCreateExecutorKeypair_refines meets d.files
  have same : outcome (Keys.getOrCreateExecutorKeypair world d.files) = .ok key' := by
    rw [refines.1, returned]
    rfl
  exact (getOrCreateExecutorKeypair_reads told.hold keeps).2 key' same

/-- From its start on the controller has one key. It is the only one that is told with status
200, whoever asks and with whatever token, and the one that every job logs in with. -/
theorem one_key {Entropy : Type} (keys : ThrusshKeys KeyPair Entropy) {start : Deployment}
    (serves : start.Serves decode passphrase token) :
    ∃ key, ∀ d, Reachable step (fun _ act => act.Keeps decode passphrase) start d →
      (∀ e ∈ d.history, ∀ response ∈ e.received, response.status = 200 →
        response.body = authorizedKey key) ∧
      ∀ world, world.Keeps decode passphrase →
        (∀ query response, outcome (respond world query d.files) = .ok response →
          response.status = 200 → response.body = authorizedKey key) ∧
        (∀ key', outcome (Keys.getOrCreateExecutorKeypair world d.files) = .ok key' →
          key' = key) ∧
        ∀ call, KeyCall.Meets keys call world → ∀ key',
          outcome (KeyFile.getOrCreateExecutorKeypair keys call
            (d.files.executorKey.map String.toUTF8)) = .ok key' → key' = key := by
  obtain ⟨key, told⟩ := serves.told
  refine ⟨key, fun d run => ⟨fun e member response received => ?_, fun world keeps => ⟨?_, ?_, ?_⟩⟩⟩
  · exact ((told d run).told e member response received).1
  · exact fun query response answered =>
      ((respond_reads (told d run).hold keeps query).2 response answered).1
  · exact (getOrCreateExecutorKeypair_reads (told d run).hold keeps).2
  · exact fun call meets key' returned => executorKeypair_of_told (told d run) keeps meets returned

/-- The jobs of the controller are let in where an agent that has been started with the token
of the controller has gone through two good rounds in a row, whatever its file was before and
whatever the rounds since have met. -/
theorem lets_jobs_in {start : Deployment} (serves : start.Serves decode passphrase token)
    (base64 : ∀ pem key, decode pem passphrase = .ok key → '\n' ∉ key.publicKeyBase64.toList)
    (run : Reachable step (fun _ act => act.Keeps decode passphrase ∧ act.Presents token) start d)
    {e₁ e₂ : Exchange} (pair : [e₁, e₂] <:+: d.history) (good₁ : e₁.Good) (good₂ : e₂.Good)
    {world : KeyWorld} (keeps : world.Keeps decode passphrase)
    (login : outcome (Keys.getOrCreateExecutorKeypair world d.files) = .ok key) :
    authorizedKey key ∈ lines d.authorizedKeys := by
  obtain ⟨key', told⟩ := serves.told
  have initially := told start .start
  obtain ⟨pem, -, decoded⟩ := initially.hold.key
  obtain ⟨free, same⟩ := authorizedKey_plain (base64 pem key' decoded)
  have settled : d.Told decode passphrase token key' ∧
      (∀ e ∈ d.history, ∀ query ∈ e.query, query = .token token) ∧
      d.Settles (authorizedKey key') := by
    refine run.invariant (I := fun d => d.Told decode passphrase token key' ∧
      (∀ e ∈ d.history, ∀ query ∈ e.query, query = .token token) ∧
      d.Settles (authorizedKey key')) ⟨initially, ?_, ?_⟩ ?_
    · simp [serves.fresh]
    · exact ⟨by simp [serves.fresh], by simp [serves.fresh], by simp [serves.fresh]⟩
    · rintro s act t ⟨keeps, presents⟩ taken ⟨told, presented, settles⟩
      have told' := told.step keeps taken
      have presented' := presents_step presented presents taken
      refine ⟨told', presented', settles.step free same taken fun e member response received => ?_⟩
      obtain ⟨line, status⟩ := told'.told e member response received
      exact line (status (presented' e member))
  obtain rfl := (getOrCreateExecutorKeypair_reads settled.1.hold keeps).2 key login
  exact settled.2.2.twice e₁ e₂ pair good₁ good₂

end Runs

namespace Enrolling

/-- A line with something on it. -/
def Line (text : String) : Prop := text ≠ "" ∧ '\n' ∉ text.toList

instance (text : String) : Decidable (Line text) := inferInstanceAs (Decidable (_ ∧ _))

/-- A key is stored as it is, if it is a line. -/
def encode (key : KeyPair) (_passphrase : String) : Except Report String :=
  if Line key.publicKeyBase64 then .ok key.publicKeyBase64 else .error (.msg "ASN1 decoding error")

def decode (pem _passphrase : String) : Except Report KeyPair :=
  if Line pem then .ok ⟨pem⟩ else .error (.msg "ASN1 decoding error")

/-- The controller is started for the first time. The last line of the file of the agent has
no line feed. -/
def world : KeyWorld where
  tokenFile := ⟨.ok ⟨⟩, .ok ⟨⟩, .ok ⟨⟩, .ok ⟨⟩⟩
  keyFile := ⟨.ok ⟨⟩, .ok ⟨⟩, .ok ⟨⟩, .ok ⟨⟩⟩
  generatedToken := "secret"
  generatedKey := ⟨"B"⟩
  passphrase := .ok "phrase"
  encode := encode
  decode := decode

def start : Deployment := ⟨⟨some "secret", some "B"⟩, "ssh-ed25519 A laptop", true, []⟩

def round : Action := .round (.ok (.token "secret", world)) Asking.host

def exchange (before : String) : Exchange where
  query := some (.token "secret")
  files := start.files
  received := some ⟨200, authorizedKey ⟨"B"⟩⟩
  host := Asking.host
  before := before
  after := before ++ authorizedKey ⟨"B"⟩ ++ "\n"

def once : Deployment :=
  { start with
    authorizedKeys := (exchange start.authorizedKeys).after
    history := [exchange start.authorizedKeys] }

def twice : Deployment :=
  { start with
    authorizedKeys := (exchange once.authorizedKeys).after
    history := [exchange start.authorizedKeys, exchange once.authorizedKeys] }

theorem encode_eq_ok {key : KeyPair} {passphrase pem : String}
    (encoded : encode key passphrase = .ok pem) : pem = key.publicKeyBase64 ∧ Line pem := by
  rw [encode] at encoded
  split at encoded
  · obtain rfl := Except.ok.inj encoded
    exact ⟨rfl, ‹_›⟩
  · cases encoded

theorem decode_encode {key : KeyPair} {passphrase pem : String}
    (encoded : encode key passphrase = .ok pem) : decode pem passphrase = .ok key := by
  obtain ⟨rfl, line⟩ := encode_eq_ok encoded
  exact if_pos line

theorem keeps : world.Keeps decode "phrase" where
  passphrase_eq := rfl
  decode_eq := rfl
  decode_encode _ _ := decode_encode
  tokenFile := rfl
  keyFile := rfl

theorem base64 (pem : String) (key : KeyPair) (h : decode pem "phrase" = .ok key) :
    '\n' ∉ key.publicKeyBase64.toList := by
  rw [decode] at h
  split at h
  · next line =>
      obtain rfl := Except.ok.inj h
      exact line.2
  · cases h

/-- The same in bytes, under any passphrase. -/
def keys : ThrusshKeys KeyPair Unit where
  encode _ key _ _ := (encode key "phrase").map String.toUTF8
  decode text _ := decode text "phrase"
  decode_encode := by
    intro _ key _ _ pem encoded
    cases stored : encode key "phrase" with
    | error e =>
        rw [stored] at encoded
        cases encoded
    | ok text =>
        rw [stored] at encoded
        obtain rfl := Except.ok.inj encoded
        exact ⟨text, Text.fromUTF8?_eq_some.mpr rfl, decode_encode stored⟩
  decode_empty _ := rfl

/-- A job asks for the key. -/
def call : KeyCall KeyPair Unit where
  metadata := .ok ⟨⟩
  read := .ok ⟨⟩
  create := .ok ⟨⟩
  passphrase := .ok "phrase"
  generated := ⟨"B"⟩
  entropy := ⟨⟩
  write := .ok ⟨⟩
  written := 1

theorem meets : KeyCall.Meets keys call world where
  metadata := rfl
  read := rfl
  create := rfl
  write := rfl
  passphrase := rfl
  generated := rfl
  decode _ _ := rfl
  encode _ := rfl
  whole passphrase pem encoded := by
    have stored : encode ⟨"B"⟩ passphrase = .ok pem := encoded
    rw [(encode_eq_ok stored).1]
    rfl

theorem serves : start.Serves decode "phrase" "secret" where
  started := ⟨world, .ok ⟨⟩, ⟨none, none⟩, keeps.toUses, rfl, rfl⟩
  fresh := rfl

theorem good (before : String) : (exchange before).Good :=
  ⟨⟨_, rfl, rfl⟩, fun _ => rfl⟩

theorem keeps_round : round.Keeps decode "phrase" := by
  rintro sent ⟨⟩
  exact keeps

theorem presents_round : round.Presents "secret" := by
  rintro sent ⟨⟩
  rfl

theorem reached (admits : Deployment → Action → Prop) (admitted : ∀ d, admits d round) :
    Reachable step admits start twice := by
  have first : start.step round = some once := by rfl
  have second : once.step round = some twice := by rfl
  exact .step (.step .start (admitted _) first) (admitted _) second

end Enrolling

/-- The agent has been told the key of the controller twice, and a job logs in with it. -/
theorem one_key_enrolling :
    ∃ key, (∀ e ∈ Enrolling.twice.history, ∀ response ∈ e.received, response.status = 200 →
        response.body = authorizedKey key) ∧
      outcome (KeyFile.getOrCreateExecutorKeypair Enrolling.keys Enrolling.call
        (Enrolling.twice.files.executorKey.map String.toUTF8)) = .ok key := by
  obtain ⟨key, one⟩ := one_key Enrolling.keys Enrolling.serves
  obtain ⟨told, others⟩ := one _ (Enrolling.reached _ fun _ => Enrolling.keeps_round)
  obtain ⟨-, -, calls⟩ := others _ Enrolling.keeps
  obtain rfl := calls _ Enrolling.meets ⟨"B"⟩ rfl
  exact ⟨_, told, rfl⟩

theorem lets_jobs_in_enrolling :
    ∃ d, Reachable step (fun _ act => act.Keeps Enrolling.decode "phrase" ∧ act.Presents "secret")
        Enrolling.start d ∧
      authorizedKey ⟨"B"⟩ ∈ lines d.authorizedKeys := by
  have run := Enrolling.reached
    (fun _ act => act.Keeps Enrolling.decode "phrase" ∧ act.Presents "secret")
    fun _ => ⟨Enrolling.keeps_round, Enrolling.presents_round⟩
  refine ⟨Enrolling.twice, run, ?_⟩
  exact lets_jobs_in Enrolling.serves Enrolling.base64 run (List.infix_refl _)
    (Enrolling.good _) (Enrolling.good _) Enrolling.keeps rfl

end Deployment

end There
