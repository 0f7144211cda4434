import There.Agent.Loop

/-!
# The bootstrap endpoint of the controller

An agent that presents the token of the controller is told the public key that the
controller logs in with. Token and key are kept in files, and made when they are
missing, or when they cannot be looked up. What the files and the cryptography do in the
course of a request is data.

A handler that panics sends no answer.
-/

namespace There

open Effect

/-- The files that the controller keeps its token and its key in. -/
structure KeyFiles where
  token : Option String
  executorKey : Option String
deriving DecidableEq

/-- How the operations on a file of the controller end. -/
structure FileAccess where
  /-- The query behind `exists`, which takes a failure for a missing file. -/
  metadata : Except Report Unit
  read : Except Report Unit
  create : Except Report Unit
  writeAll : Except Report Unit

/-- The content of a file for which `exists` holds. -/
def FileAccess.found (access : FileAccess) (file : Option String) : Option String :=
  if access.metadata.isOk then file else none

/-- An ed25519 key pair. The public key in base64 is all that is asked of it. -/
structure KeyPair where
  publicKeyBase64 : String

/-- What the controller finds on its own side in one request. -/
structure KeyWorld where
  tokenFile : FileAccess
  keyFile : FileAccess
  /-- 32 random letters and digits. -/
  generatedToken : String
  generatedKey : KeyPair
  passphrase : Except Report String
  encode : KeyPair → String → Except Report String
  decode : String → String → Except Report KeyPair

namespace Keys

def getOrCreateToken (world : KeyWorld) : EStateM Abort KeyFiles String := do
  let files ← get
  match world.tokenFile.found files.token with
  | some token => do
      propagate world.tokenFile.read
      pure token
  | none => do
      propagate world.tokenFile.create
      modify fun files => { files with token := some "" }
      let token := world.generatedToken
      propagate world.tokenFile.writeAll
      modify fun files => { files with token := some token }
      pure token

def getOrCreateExecutorKeypair (world : KeyWorld) : EStateM Abort KeyFiles KeyPair := do
  let files ← get
  match world.keyFile.found files.executorKey with
  | some key => do
      propagate world.keyFile.read
      let passphrase ← propagate world.passphrase
      propagate (world.decode key passphrase)
  | none => do
      propagate world.keyFile.create
      modify fun files => { files with executorKey := some "" }
      let key := world.generatedKey
      let passphrase ← propagate world.passphrase
      let pem ← propagate (world.encode key passphrase)
      propagate world.keyFile.writeAll
      modify fun files => { files with executorKey := some pem }
      pure key

end Keys

/-- The line that lets the owner of a key log in. -/
def authorizedKey (key : KeyPair) : String :=
  "ssh-ed25519 " ++ key.publicKeyBase64 ++ " there-controller"

/-- `unwrap` of what a function returns. -/
def unwrapped {σ α : Type} (site : String) (p : EStateM Abort σ α) : EStateM Abort σ α :=
  tryCatch p fun _ => throw (.panic site)

def bootstrap (world : KeyWorld) (presented : String) : EStateM Abort KeyFiles Response := do
  let token ← unwrapped "bootstrap: get_or_create_token().unwrap()" (Keys.getOrCreateToken world)
  if token == presented then
    let keys ← unwrapped "bootstrap: get_or_create_executor_keypair().unwrap()"
      (Keys.getOrCreateExecutorKeypair world)
    pure ⟨200, authorizedKey keys⟩
  else
    pure ⟨401, "invalid token"⟩

/-- The query of a request: the token, or what the framework answers to a query that
has none. -/
inductive BootstrapQuery where
  | token (presented : String)
  | rejected (response : Response) (refused : response.status ≠ 200)

/-- The answer to a request. -/
def respond (world : KeyWorld) : BootstrapQuery → EStateM Abort KeyFiles Response
  | .token presented => bootstrap world presented
  | .rejected response _ => pure response

/-- The line is given away for the token that is in its file then. -/
def Entitled (files : KeyFiles) (query : BootstrapQuery) (response : Response) : Prop :=
  ∃ token key, query = .token token ∧ files.token = some token ∧
    response = ⟨200, authorizedKey key⟩

section Rules

variable {σ α β : Type} {s : σ}

theorem propagate_iff {r : Except Report α} {post : Except Abort α → σ → Prop} :
    WP (propagate r) post s ↔ post (r.mapError .error) s := by
  cases r <;> exact Iff.rfl

theorem propagate_bind {r : Except Report α} {f : α → EStateM Abort σ β} {post : β → σ → Prop}
    (h : ∀ a, r = .ok a → Returns (f a) post s) : Returns (propagate r >>= f) post s := by
  cases r with
  | ok a => exact h a rfl
  | error e => exact Returns.throw _

/-- What a function returns is what is unwrapped. -/
theorem unwrapped_returns {site : String} {p : EStateM Abort σ α} {post : α → σ → Prop}
    (h : Returns p post s) : Returns (unwrapped site p) post s := by
  intro a returned
  change outcome (EStateM.tryCatch p _ s) = .ok a at returned
  change post a (finalState (EStateM.tryCatch p _ s))
  rw [EStateM.tryCatch] at returned ⊢
  have value := h a
  revert returned value
  cases p s with
  | ok b t => exact fun returned value => value returned
  | error e t => exact fun returned => nomatch returned

end Rules

section Files

variable {access : FileAccess} {file : Option String} {text : String}

theorem FileAccess.found_of_metadata (readable : access.metadata.isOk) :
    access.found file = file := if_pos readable

theorem FileAccess.file_of_found (found : access.found file = some text) : file = some text := by
  rw [FileAccess.found] at found
  split at found
  · exact found
  · cases found

end Files

section Answers

variable (world : KeyWorld) (files : KeyFiles)

theorem getOrCreateToken_returns :
    Returns (Keys.getOrCreateToken world) (fun token files' => files'.token = some token)
      files := by
  refine Returns.get_bind ?_
  cases found : world.tokenFile.found files.token with
  | some token =>
      exact propagate_bind fun _ _ => Returns.pure (FileAccess.file_of_found found)
  | none =>
      refine propagate_bind fun _ _ => Returns.modify_bind ?_
      exact propagate_bind fun _ _ => Returns.modify_bind (Returns.pure rfl)

/-- The token is left alone when the key is asked for. -/
theorem getOrCreateExecutorKeypair_returns :
    Returns (Keys.getOrCreateExecutorKeypair world) (fun _ files' => files'.token = files.token)
      files := by
  refine Returns.get_bind ?_
  cases world.keyFile.found files.executorKey with
  | some key =>
      refine propagate_bind fun _ _ => propagate_bind fun passphrase _ => ?_
      cases world.decode key passphrase with
      | ok key => exact Returns.pure rfl
      | error e => exact Returns.throw _
  | none =>
      refine propagate_bind fun _ _ => Returns.modify_bind ?_
      refine propagate_bind fun _ _ => propagate_bind fun _ _ => propagate_bind fun _ _ => ?_
      exact Returns.modify_bind (Returns.pure rfl)

theorem bootstrap_returns (presented : String) :
    Returns (bootstrap world presented) (fun response files' => response.status = 200 →
      Entitled files' (.token presented) response) files := by
  refine Returns.bind (unwrapped_returns (getOrCreateToken_returns world files)) ?_
  intro token files' stored
  by_cases same : token = presented
  · rw [if_pos (beq_iff_eq.mpr same)]
    refine Returns.bind (unwrapped_returns (getOrCreateExecutorKeypair_returns world files')) ?_
    rintro keys files'' kept
    exact Returns.pure fun _ => ⟨presented, keys, rfl, by rw [kept, stored, same], rfl⟩
  · rw [if_neg (mt beq_iff_eq.mp same)]
    exact Returns.pure fun accepted => nomatch accepted

/-- An answer with status 200 is the line, given for the token of the controller. -/
theorem respond_returns (query : BootstrapQuery) :
    Returns (respond world query) (fun response files' => response.status = 200 →
      Entitled files' query response) files := by
  cases query with
  | token presented => exact bootstrap_returns world files presented
  | rejected response refused => exact Returns.pure fun accepted => absurd accepted refused

end Answers

end There
