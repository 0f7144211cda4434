import There.Concurrent.Runs
import There.Controller.Bootstrap

/-!
# Whom the agent trusts

A controller and an agent, which meet in the answers to the agent's requests and nowhere
else. Other clients ask the controller as well, its files may be replaced, and an agent
that has failed may be started again.

The controller refuses by the status of its answer, at which the agent does not look: it
adds whatever it is told to the keys that may log in.
-/

namespace There

open Text Effect Concurrent

/-- One round of the agent as it went. -/
structure Exchange where
  /-- What was presented to the controller, if anything reached it. -/
  query : Option BootstrapQuery
  /-- The files of the controller when it had answered. -/
  files : KeyFiles
  received : Option Response
  host : AgentHost
  before : String
  after : String

/-- The controller's files, the file of the agent, and the rounds so far. -/
structure Deployment where
  files : KeyFiles
  authorizedKeys : String
  running : Bool
  history : List Exchange

namespace Deployment

inductive Action where
  /-- The agent is started. -/
  | start
  /-- The running agent goes through its loop once. Its request reaches the controller,
  or fails on the way. An answer that is lost is a visit, and then such a failure. -/
  | round (request : Except Report (BootstrapQuery × KeyWorld)) (host : AgentHost)
  /-- Another client asks the controller. -/
  | visit (query : BootstrapQuery) (world : KeyWorld)
  /-- Somebody replaces the files of the controller. -/
  | replace (files : KeyFiles)

/-- What a request comes to for the agent, and what it leaves at the controller. -/
def requested (files : KeyFiles) :
    Except Report (BootstrapQuery × KeyWorld) → Except Report Response × KeyFiles
  | .error e => (.error e, files)
  | .ok (query, world) =>
      match respond world query files with
      | .ok response files' => (.ok response, files')
      | .error _ files' => (.error (.msg "connection closed before message completed"), files')

def step (d : Deployment) : Action → Option Deployment
  | .start => if d.running then none else some { d with running := true }
  | .round request host =>
      if d.running then
        let (get, files) := requested d.files request
        let went := Agent.round { host with get } d.authorizedKeys
        some
          { files
            authorizedKeys := finalState went
            running := (outcome went).isOk
            history := d.history ++
              [{ query := request.toOption.map (·.1)
                 files
                 received := Round.received { host with get }
                 host
                 before := d.authorizedKeys
                 after := finalState went }] }
      else
        none
  | .visit query world => some { d with files := finalState (respond world query d.files) }
  | .replace files => some { d with files }

end Deployment

/-- What a round has added to the file. -/
def Exchange.added (e : Exchange) : String :=
  String.ofList (e.after.toList.drop e.before.toList.length)

/-- A round adds nothing, or the line that the controller has returned with status 200 to
the token in its file. The line is cut short if the write fails. -/
structure Exchange.Genuine (e : Exchange) : Prop where
  kept : e.after = e.before ++ e.added
  genuine : e.added = "" ∨ ∃ query response, e.query = some query ∧ e.received = some response ∧
    Entitled e.files query response ∧ e.added = e.host.writeln.appends response.body

/-- Only genuine keys have been added to the file since it was `file`. -/
structure Deployment.Trusted (file : String) (d : Deployment) : Prop where
  authorizedKeys : d.authorizedKeys = file ++ String.join (d.history.map Exchange.added)
  genuine : ∀ e ∈ d.history, e.Genuine

/-- A refusal that the agent takes for a line it has, or that it cannot add. -/
def Exchange.Harmless (e : Exchange) : Prop :=
  ∀ response ∈ e.received, response.status ≠ 200 →
    response.body ∈ lines e.before ∨ e.host.appends response.body = ""

/-- What a round and its record have to do with each other. -/
structure Exchange.Recorded (e : Exchange) : Prop where
  after : e.after = match e.received with
    | none => e.before
    | some response =>
        if response.body ∈ lines e.before then e.before else e.before ++ e.host.appends response.body
  entitled : ∀ response ∈ e.received, response.status = 200 →
    ∃ query, e.query = some query ∧ Entitled e.files query response

structure Deployment.Recorded (file : String) (d : Deployment) : Prop where
  authorizedKeys : d.authorizedKeys = file ++ String.join (d.history.map Exchange.added)
  exchanges : ∀ e ∈ d.history, e.Recorded

namespace Exchange

variable {e : Exchange}

theorem added_eq {text : String} (h : e.after = e.before ++ text) : e.added = text := by
  rw [added, h, String.toList_append, List.drop_left, String.ofList_toList]

theorem Recorded.kept (recorded : e.Recorded) : e.after = e.before ++ e.added := by
  have grown : ∃ text, e.after = e.before ++ text := by
    rw [recorded.after]
    split
    · exact ⟨"", String.append_empty.symm⟩
    · split
      · exact ⟨"", String.append_empty.symm⟩
      · exact ⟨_, rfl⟩
  obtain ⟨text, h⟩ := grown
  rw [added_eq h, h]

/-- A line that is given away is genuine, so only a refusal can do harm. -/
theorem genuine_iff (recorded : e.Recorded) : e.Genuine ↔ e.Harmless := by
  have after := recorded.after
  cases answer : e.received with
  | none =>
      rw [answer] at after
      have nothing : e.added = "" := added_eq (after.trans String.append_empty.symm)
      exact iff_of_true ⟨recorded.kept, .inl nothing⟩ (by simp [Harmless, answer])
  | some response =>
  rw [answer] at after
  by_cases there : response.body ∈ lines e.before
  · have nothing : e.added = "" :=
      added_eq ((after.trans (if_pos there)).trans String.append_empty.symm)
    exact iff_of_true ⟨recorded.kept, .inl nothing⟩ (by simp [Harmless, answer, there])
  have text : e.added = e.host.appends response.body := added_eq (after.trans (if_neg there))
  have harmless : e.Harmless ↔ (response.status ≠ 200 → e.added = "") := by
    simp [Harmless, answer, there, text]
  rw [harmless]
  constructor
  · rintro ⟨-, nothing | ⟨query, response', -, answer', ⟨token, key, -, -, rfl⟩, -⟩⟩ refused
    · exact nothing
    · obtain rfl := Option.some.inj (answer.symm.trans answer')
      exact absurd rfl refused
  · intro otherwise
    refine ⟨recorded.kept, ?_⟩
    by_cases accepted : response.status = 200
    · obtain ⟨query, presented, entitled⟩ := recorded.entitled response answer accepted
      rcases e.host.appends_eq response.body with nothing | line
      · exact .inl (text.trans nothing)
      · exact .inr ⟨query, response, presented, answer, entitled, text.trans line⟩
    · exact .inl (otherwise accepted)

end Exchange

namespace Deployment

variable {d d' : Deployment} {file : String}

/-- An answer with status 200 comes from the controller, for the token in its file. -/
theorem requested_entitled {files files' : KeyFiles}
    {request : Except Report (BootstrapQuery × KeyWorld)} {response : Response}
    (h : requested files request = (.ok response, files')) (accepted : response.status = 200) :
    ∃ query, request.toOption.map (·.1) = some query ∧ Entitled files' query response := by
  cases request with
  | error e => cases h
  | ok sent =>
      obtain ⟨query, world⟩ := sent
      refine ⟨query, rfl, ?_⟩
      have returns := respond_returns world files query
      rw [Returns, WP] at returns
      simp only [requested] at h
      cases answered : respond world query files with
      | ok response' files'' =>
          rw [answered] at h returns
          cases h
          exact returns response rfl accepted
      | error e files'' =>
          rw [answered] at h
          cases h

theorem Recorded.step (recorded : d.Recorded file) {act : Action} (h : d.step act = some d') :
    d'.Recorded file := by
  cases act with
  | start =>
      simp only [Deployment.step] at h
      split at h
      · cases h
      · cases h
        exact ⟨recorded.authorizedKeys, recorded.exchanges⟩
  | visit query world | replace files =>
      cases h
      exact ⟨recorded.authorizedKeys, recorded.exchanges⟩
  | round request host =>
      simp only [Deployment.step] at h
      split at h
      · cases answered : requested d.files request with | mk get files =>
        rw [answered] at h
        cases h
        have exchange : Exchange.Recorded
            { query := request.toOption.map (·.1)
              files
              received := Round.received { host with get }
              host
              before := d.authorizedKeys
              after := finalState (Agent.round { host with get } d.authorizedKeys) } := by
          refine ⟨Agent.finalState_round _ _, fun response received accepted => ?_⟩
          obtain rfl := Round.get_of_received received
          exact requested_entitled answered accepted
        constructor
        · rw [List.map_append, String.join_append, ← String.append_assoc,
            ← recorded.authorizedKeys]
          simpa using exchange.kept
        · intro e member
          rcases List.mem_append.mp member with old | new
          · exact recorded.exchanges e old
          · rw [List.mem_singleton.mp new]
            exact exchange
      · cases h

/-- Only genuine keys are added to the file, in any run of controller, agent and others,
exactly if every refusal that the agent receives in it finds its text among the lines of
the file, or the agent cannot write. -/
theorem trusted_iff (start d : Deployment) (fresh : start.history = [])
    (run : Reachable step (fun _ _ => True) start d) :
    d.Trusted start.authorizedKeys ↔ ∀ e ∈ d.history, e.Harmless := by
  have recorded : d.Recorded start.authorizedKeys := by
    refine run.invariant ⟨?_, ?_⟩ fun _ _ _ _ taken inv => inv.step taken
    · simp [fresh]
    · simp [fresh]
  constructor
  · intro trusted e member
    exact (Exchange.genuine_iff (recorded.exchanges e member)).mp (trusted.genuine e member)
  · intro harmless
    exact ⟨recorded.authorizedKeys, fun e member =>
      (Exchange.genuine_iff (recorded.exchanges e member)).mpr (harmless e member)⟩

namespace Asking

/-- The controller has the token `secret`. An agent asks it once, with this token or with
another one. -/
def files : KeyFiles := ⟨some "secret", some "pem"⟩

def host : AgentHost := ⟨.ok ⟨⟩, some ⟨⟩, .ok ⟨⟩, .ok ⟨⟩, .whole⟩

def world : KeyWorld where
  tokenFile := ⟨.ok ⟨⟩, .ok ⟨⟩, .ok ⟨⟩, .ok ⟨⟩⟩
  keyFile := ⟨.ok ⟨⟩, .ok ⟨⟩, .ok ⟨⟩, .ok ⟨⟩⟩
  generatedToken := "fresh"
  generatedKey := ⟨"C"⟩
  passphrase := .ok "phrase"
  encode _ _ := .ok "pem"
  decode _ _ := .ok ⟨"B"⟩

def start : Deployment := ⟨files, "ssh-ed25519 A laptop\n", true, []⟩

def exchange (token : String) (response : Response) : Exchange where
  query := some (.token token)
  files := files
  received := some response
  host := host
  before := "ssh-ed25519 A laptop\n"
  after := "ssh-ed25519 A laptop\n" ++ response.body ++ "\n"

def asked (token : String) (response : Response) : Deployment :=
  ⟨files, "ssh-ed25519 A laptop\n" ++ response.body ++ "\n", true, [exchange token response]⟩

theorem accepted : start.step (.round (.ok (.token "secret", world)) host) =
    some (asked "secret" ⟨200, "ssh-ed25519 B there-controller"⟩) := by
  rfl

theorem refused : start.step (.round (.ok (.token "guess", world)) host) =
    some (asked "guess" ⟨401, "invalid token"⟩) := by
  rfl

end Asking

theorem trusted_accepted :
    (Asking.asked "secret" ⟨200, "ssh-ed25519 B there-controller"⟩).Trusted
      "ssh-ed25519 A laptop\n" := by
  refine (trusted_iff Asking.start _ rfl (.step .start trivial Asking.accepted)).mpr ?_
  rintro e member response received refused
  obtain rfl := List.mem_singleton.mp member
  obtain rfl := Option.some.inj received
  exact absurd rfl refused

/-- The text of the refusal is added to the keys that may log in. -/
theorem not_trusted :
    Reachable step (fun _ _ => True) Asking.start
        (Asking.asked "guess" ⟨401, "invalid token"⟩) ∧
      ¬ (Asking.asked "guess" ⟨401, "invalid token"⟩).Trusted "ssh-ed25519 A laptop\n" := by
  refine ⟨.step .start trivial Asking.refused, fun trusted => ?_⟩
  rcases (trusted.genuine _ List.mem_cons_self).genuine with
    nothing | ⟨query, response, -, received, ⟨token, key, -, -, rfl⟩, -⟩
  · revert nothing
    decide +kernel
  · cases received

end Deployment

end There
