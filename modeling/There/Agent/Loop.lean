import There.Effect.WP
import There.Plan.Basic
import There.Text.Lines

/-!
# The loop of the agent

The agent asks the controller for its public key and adds what it is told to
`~/.ssh/authorized_keys`, once every five minutes. The state is the content of this
file. What the agent meets in a round is data: the answer of the controller, and what
the file system does.

An agent that fails or panics is gone, and with it the rest of its rounds.
-/

namespace There

open Text Effect

/-- An answer to an HTTP request. The client takes every answer for a success,
whatever its status is. -/
structure Response where
  status : Nat
  body : String
deriving Repr, DecidableEq

/-- How it ends to write a line. A write that fails may have written some of it. -/
inductive Write where
  | whole
  | failed (written : Nat) (report : Report)

/-- What the agent finds on its own side in one round. -/
structure AgentHost where
  text : Except Report Unit
  userDirs : Option Unit
  readToString : Except Report Unit
  openAppend : Except Report Unit
  writeln : Write

/-- What the agent meets in one round. -/
structure Round extends AgentHost where
  get : Except Report Response

/-- What a write appends. -/
def Write.appends (line : String) : Write → String
  | whole => line ++ "\n"
  | failed written _ => String.ofList ((line ++ "\n").toList.take written)

/-- `?`. -/
def propagate {σ α : Type} : Except Report α → EStateM Abort σ α
  | .ok a => pure a
  | .error e => throw (.error e)

/-- `unwrap`, or `panic!` in a branch for errors. -/
def unwrap {σ α : Type} (site : String) : Except Report α → EStateM Abort σ α
  | .ok a => pure a
  | .error _ => throw (.panic site)

namespace Agent

/-- `writeln!` to a file that is open for appending. -/
def writeln (write : Write) (line : String) : EStateM Abort String PUnit := do
  modify (· ++ write.appends line)
  match write with
  | .whole => pure ⟨⟩
  | .failed _ _ => throw (.panic "main: writeln!")

/-- One round of the loop. -/
def round (r : Round) : EStateM Abort String PUnit := do
  let response ← propagate r.get
  propagate r.text
  let controllerKey := response.body
  match r.userDirs with
  | none => throw (.error (.msg "could not get user directories"))
  | some _ => do
      propagate r.readToString
      let content ← get
      if ((lines content).find? (· == controllerKey)).isNone then
        unwrap "main: open().unwrap()" r.openAppend
        writeln r.writeln controllerKey

/-- The rounds of an agent that has been told where the controller is. -/
def main (controllerDsn : Except Report String) (rounds : List Round) :
    EStateM Abort String PUnit := do
  let _ ← propagate controllerDsn
  forM rounds round

end Agent

/-- The answer that reaches the agent, whatever it says. -/
def Round.received (r : Round) : Option Response :=
  match r.get, r.text with
  | .ok response, .ok _ => some response
  | _, _ => none

/-- What the agent appends for a line that is not in the file: nothing if it cannot read
the file or open it. -/
def AgentHost.appends (host : AgentHost) (line : String) : String :=
  match host.userDirs, host.readToString, host.openAppend with
  | some _, .ok _, .ok _ => host.writeln.appends line
  | _, _, _ => ""

theorem Round.get_of_received {r : Round} {response : Response}
    (h : r.received = some response) : r.get = .ok response := by
  rw [received] at h
  split at h
  · rename_i answer _
    obtain rfl := Option.some.inj h
    exact answer
  · cases h

theorem AgentHost.appends_eq (host : AgentHost) (line : String) :
    host.appends line = "" ∨ host.appends line = host.writeln.appends line := by
  rw [appends]
  split
  · exact .inr rfl
  · exact .inl rfl

/-- The controller answers with the key, and nothing fails. -/
structure Round.Serves (r : Round) (key : String) : Prop where
  get : ∃ status, r.get = .ok ⟨status, key⟩
  text : r.text = .ok ⟨⟩
  userDirs : r.userDirs = some ⟨⟩
  readToString : r.readToString = .ok ⟨⟩
  openAppend : r.openAppend = .ok ⟨⟩
  writeln : r.writeln = .whole

namespace Agent

variable {r : Round} {rounds : List Round} {key file : String}

theorem find_isNone : ((lines file).find? (· == key)).isNone ↔ key ∉ lines file := by
  rw [Option.isNone_iff_eq_none, List.find?_eq_none]
  constructor
  · intro none there
    exact none key there (beq_self_eq_true key)
  · rintro missing line there same
    exact missing (eq_of_beq same ▸ there)

/-- A round in which nothing fails adds the line that the controller has sent. -/
theorem round_eq (serves : r.Serves key) (file : String) :
    round r file = .ok ⟨⟩ (addLine key file) := by
  obtain ⟨⟨status, get⟩, text, userDirs, readToString, openAppend, writeln⟩ := serves
  rw [round, get, text, userDirs, readToString, openAppend, writeln]
  change (if ((lines file).find? (· == key)).isNone then
    Agent.writeln .whole key else pure ⟨⟩ : EStateM Abort String PUnit) file = _
  by_cases there : key ∈ lines file
  · rw [if_neg (not_not.mpr there ∘ find_isNone.mp), addLine_of_mem there]
    rfl
  · rw [if_pos (find_isNone.mpr there), addLine, if_neg there, String.append_assoc]
    rfl

/-- What a round does to the file, however it ends. -/
theorem finalState_round (r : Round) (file : String) :
    finalState (round r file) = match r.received with
      | none => file
      | some response =>
          if response.body ∈ lines file then file else file ++ r.appends response.body := by
  obtain ⟨⟨text, userDirs, readToString, openAppend, write⟩, get⟩ := r
  cases get with
  | error e => rfl
  | ok response =>
  cases text with
  | error e => rfl
  | ok _ =>
  cases userDirs with
  | none =>
      change file = if response.body ∈ lines file then file else file ++ ""
      rw [String.append_empty, ite_self]
  | some _ =>
  cases readToString with
  | error e =>
      change file = if response.body ∈ lines file then file else file ++ ""
      rw [String.append_empty, ite_self]
  | ok _ =>
      change finalState ((if ((lines file).find? (· == response.body)).isNone then
        (do unwrap "main: open().unwrap()" openAppend; writeln write response.body) else pure ⟨⟩ :
          EStateM Abort String PUnit) file) = if response.body ∈ lines file then file else _
      by_cases there : response.body ∈ lines file
      · rw [if_neg (not_not.mpr there ∘ find_isNone.mp), if_pos there]
        rfl
      · rw [if_pos (find_isNone.mpr there), if_neg there]
        cases openAppend with
        | error e => exact (String.append_empty).symm
        | ok _ => cases write <;> rfl

theorem main_eq (dsn : String) (serves : ∀ r ∈ rounds, r.Serves key) (file : String) :
    main (.ok dsn) rounds file = .ok ⟨⟩ ((addLine key)^[rounds.length] file) := by
  change forM rounds round file = _
  induction rounds generalizing file with
  | nil => rfl
  | cons r rounds ih =>
      obtain ⟨first, rest⟩ := List.forall_mem_cons.mp serves
      rw [List.forM_cons]
      change EStateM.bind (round r) _ file = _
      rw [EStateM.bind, round_eq first]
      exact ih rest (addLine key file)

/-- The rounds leave the lines of the file as they were and add the key to them once, and
only if it is not among them. Rounds after the first change nothing. -/
structure AddsKey (controllerDsn key file : String) (rounds : List Round) : Prop where
  completes : outcome (main (.ok controllerDsn) rounds file) = .ok ⟨⟩
  lines_eq : lines (finalState (main (.ok controllerDsn) rounds file)) =
    lines file ++ if key ∈ lines file then [] else [key]
  settled : finalState (main (.ok controllerDsn) rounds file) =
    finalState (main (.ok controllerDsn) (rounds.take 1) file)

/-- The agent looks at lines and appends text. The key becomes a line of its own exactly
if the file is empty or ends with a line feed. A carriage return at the end of the key
would be lost when the line is read. -/
theorem addsKey_iff (controllerDsn key file : String) (rounds : List Round)
    (some : rounds ≠ []) (ne : key ≠ "") (free : '\n' ∉ key.toList)
    (serves : ∀ r ∈ rounds, r.Serves key) :
    AddsKey controllerDsn key file rounds ↔
      key ∈ lines file ∨ Ended file ∧ key.toList.getLast? ≠ .some '\r' := by
  rw [← readBack_eq_self]
  obtain ⟨r, rest, rfl⟩ := List.exists_cons_of_ne_nil some
  have all := main_eq controllerDsn serves file
  have one : ∀ q ∈ [r], q.Serves key := by simpa using (List.forall_mem_cons.mp serves).1
  have first := main_eq controllerDsn one file
  constructor
  · intro adds
    have once := adds.lines_eq
    rw [all] at once
    exact (lines_addLine_iterate_iff free ne file rest.length).mp once
  · intro h
    refine ⟨by rw [all]; rfl, ?_, ?_⟩
    · rw [all]
      exact (lines_addLine_iterate_iff free ne file rest.length).mpr h
    · rw [all, List.take_succ_cons, List.take_zero, first]
      exact addLine_iterate_succ free h rest.length

/-- The controller answers with the key. -/
def answered (key : String) : Round :=
  ⟨⟨.ok ⟨⟩, .some ⟨⟩, .ok ⟨⟩, .ok ⟨⟩, .whole⟩, .ok ⟨200, key⟩⟩

theorem answered_serves (key : String) : (answered key).Serves key :=
  ⟨⟨200, rfl⟩, rfl, rfl, rfl, rfl, rfl⟩

theorem addsKey_ended :
    AddsKey "http://controller/api/bootstrap?token=t" "ssh-ed25519 B there-controller"
      "ssh-ed25519 A laptop\n"
      [answered "ssh-ed25519 B there-controller", answered "ssh-ed25519 B there-controller"] :=
  (addsKey_iff _ _ _ _ (by decide) (by decide) (by decide)
    (by simp [answered_serves])).mpr (.inr ⟨by decide, by decide⟩)

/-- The last line of the file has no line feed, so the key is appended to the login key
in it, and is added again in the next round. -/
theorem not_addsKey :
    ¬ AddsKey "http://controller/api/bootstrap?token=t" "ssh-ed25519 B there-controller"
      "ssh-ed25519 A laptop"
      [answered "ssh-ed25519 B there-controller", answered "ssh-ed25519 B there-controller"] := by
  intro adds
  have lines_eq := adds.lines_eq
  revert lines_eq
  decide +kernel

end Agent

end There
