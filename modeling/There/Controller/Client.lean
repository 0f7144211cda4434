import There.Dispatch.Drain

/-!
# Jobs as the CLI sees them

The state of a job as the controller stores it and hands it out, and the loop with
which `plan apply` follows a job: it asks for the job's state, prints for every host
the log entries beyond the number printed so far, and leaves when the status is no
longer `Running`. The hosts of a snapshot are visited in any order.
-/

namespace There

structure LogEntry where
  hostname : String
  log : String
deriving Repr, DecidableEq

structure JobState where
  logs : HashMap String (List LogEntry)
  plan : Plan
  hosts : HostConfig
  status : JobStatus

/-- The log entries of a host; none if the host has no list. -/
def JobState.entries (state : JobState) (hostname : String) : List LogEntry :=
  (state.logs.lookup hostname).getD []

/-- How far the polling loop has come. -/
inductive ClientStage where
  | polling
  /-- A snapshot has arrived and is not yet processed. -/
  | holding (state : JobState)
  | left (status : JobStatus)
  /-- The status request was not answered. -/
  | failed

structure Client where
  stage : ClientStage := .polling
  logOffsets : HashMap String Nat := ∅
  /-- The lines printed, each shown as the host name and the log. -/
  printed : List LogEntry := []

namespace Client

def offset (c : Client) (hostname : String) : Nat := (c.logOffsets.lookup hostname).getD 0

/-- Print what is new for one host. -/
def printHost (c : Client) (host : Sigma fun _ : String => List LogEntry) : Client :=
  if c.offset host.1 < host.2.length then
    { c with
      printed := c.printed ++ host.2.drop (c.offset host.1)
      logOffsets := c.logOffsets.insert host.1 host.2.length }
  else
    c

/-- The loop is left when the job is completed or failed. -/
def afterRound : JobStatus → ClientStage
  | .running => .polling
  | .completed => .left .completed
  | .failed => .left .failed

/-- Nobody leaves the loop of a job that is running. -/
theorem afterRound_left {status status' : JobStatus} (left : afterRound status = .left status') :
    status' = status ∧ status ≠ .running := by
  cases status with
  | running => cases left
  | completed | failed =>
      obtain rfl := ClientStage.left.inj left
      exact ⟨rfl, nofun⟩

/-- One round of the loop after the snapshot has arrived; `order` is the order in
which the hosts are visited. -/
def print (c : Client) (order : List (Sigma fun _ : String => List LogEntry)) : Option Client :=
  match c.stage with
  | .holding state =>
      if order.Perm state.logs.entries then
        some { order.foldl printHost c with stage := afterRound state.status }
      else
        none
  | _ => none

/-- What has been printed for a host. -/
def printedFor (c : Client) (hostname : String) : List LogEntry :=
  c.printed.filter (·.hostname = hostname)

/-- The lines printed for a host are the first entries of its log. -/
structure Shows (c : Client) (hostname : String) (entries : List LogEntry) : Prop where
  printed : c.printedFor hostname = entries.take (c.offset hostname)
  offset_le : c.offset hostname ≤ entries.length

variable {c : Client} {hostname : String} {entries : List LogEntry}

/-- More entries at the end of a log change nothing that has been shown. -/
theorem Shows.append (h : c.Shows hostname entries) (more : List LogEntry) :
    c.Shows hostname (entries ++ more) where
  printed := by rw [h.printed, List.take_append_of_le_length h.offset_le]
  offset_le := by
    rw [List.length_append]
    exact Nat.le_add_right_of_le h.offset_le

section Print

variable {host : Sigma fun _ : String => List LogEntry}

/-- A host is shown completely once it has been visited. -/
theorem printHost_shows (own : ∀ e ∈ host.2, e.hostname = host.1) (h : c.Shows host.1 host.2) :
    (c.printHost host).printedFor host.1 = host.2 ∧
      (c.printHost host).offset host.1 = host.2.length := by
  rw [printHost]
  split
  · refine ⟨?_, by simp [offset]⟩
    have mine : (host.2.drop (c.offset host.1)).filter (·.hostname = host.1) =
        host.2.drop (c.offset host.1) := by
      rw [List.filter_eq_self]
      intro e he
      simpa using own e (List.mem_of_mem_drop he)
    rw [printedFor, List.filter_append, mine]
    exact (congrArg (· ++ _) h.printed).trans (List.take_append_drop _ _)
  · rename_i all
    have same : c.offset host.1 = host.2.length :=
      Nat.le_antisymm h.offset_le (Nat.le_of_not_lt all)
    exact ⟨by rw [h.printed, same, List.take_length], same⟩

/-- A visit to one host concerns no other. -/
theorem printHost_ne (own : ∀ e ∈ host.2, e.hostname = host.1) (ne : hostname ≠ host.1) :
    (c.printHost host).printedFor hostname = c.printedFor hostname ∧
      (c.printHost host).offset hostname = c.offset hostname := by
  rw [printHost]
  split
  · refine ⟨?_, by simp [offset, AList.lookup_insert_ne ne]⟩
    have others : (host.2.drop (c.offset host.1)).filter (·.hostname = hostname) = [] := by
      rw [List.filter_eq_nil_iff]
      intro e he
      simpa [own e (List.mem_of_mem_drop he)] using ne.symm
    rw [printedFor, List.filter_append, others, List.append_nil]
    rfl
  · exact ⟨rfl, rfl⟩

/-- A round concerns only the hosts that it visits. -/
theorem foldl_printHost_of_not_mem {order : List (Sigma fun _ : String => List LogEntry)}
    (own : ∀ host ∈ order, ∀ e ∈ host.2, e.hostname = host.1)
    (absent : ∀ host ∈ order, hostname ≠ host.1) :
    (order.foldl printHost c).printedFor hostname = c.printedFor hostname ∧
      (order.foldl printHost c).offset hostname = c.offset hostname := by
  induction order generalizing c with
  | nil => exact ⟨rfl, rfl⟩
  | cons host rest ih =>
      rw [List.forall_mem_cons] at own absent
      obtain ⟨printed, offset⟩ := @printHost_ne c hostname host own.1 absent.1
      obtain ⟨printed', offset'⟩ := @ih (c.printHost host) own.2 absent.2
      exact ⟨printed'.trans printed, offset'.trans offset⟩

/-- A round shows each host that it visits completely. -/
theorem foldl_printHost_of_mem {order : List (Sigma fun _ : String => List LogEntry)}
    (distinct : (order.map Sigma.fst).Nodup)
    (own : ∀ host ∈ order, ∀ e ∈ host.2, e.hostname = host.1)
    (shows : ∀ host ∈ order, c.Shows host.1 host.2) (visited : host ∈ order) :
    (order.foldl printHost c).printedFor host.1 = host.2 ∧
      (order.foldl printHost c).offset host.1 = host.2.length := by
  induction order generalizing c with
  | nil => exact absurd visited List.not_mem_nil
  | cons first rest ih =>
      rw [List.map_cons, List.nodup_cons] at distinct
      rw [List.forall_mem_cons] at own shows
      have other : ∀ later ∈ rest, later.1 ≠ first.1 := by
        intro later member same
        exact distinct.1 (same ▸ List.mem_map_of_mem member)
      rcases List.mem_cons.mp visited with rfl | member
      · obtain ⟨printed, offset⟩ := printHost_shows own.1 shows.1
        obtain ⟨printed', offset'⟩ := @foldl_printHost_of_not_mem (c.printHost host) host.1 rest
          own.2 fun later member => (other later member).symm
        exact ⟨printed'.trans printed, offset'.trans offset⟩
      · apply ih distinct.2 own.2 _ member
        intro later member
        obtain ⟨printed, offset⟩ := @printHost_ne c later.1 first own.1 (other later member)
        have before := shows.2 later member
        exact ⟨by rw [printed, offset, before.printed], by rw [offset]; exact before.offset_le⟩

end Print

theorem print_eq_some {c' : Client} {order : List (Sigma fun _ : String => List LogEntry)}
    (h : c.print order = some c') :
    ∃ state, c.stage = .holding state ∧ order.Perm state.logs.entries ∧
      c' = { order.foldl printHost c with stage := afterRound state.status } := by
  rw [print] at h
  split at h
  · split at h
    · exact ⟨_, ‹_›, ‹_›, (Option.some.inj h).symm⟩
    · cases h
  · cases h

/-- A round shows every host of the snapshot completely. -/
theorem foldl_printHost_complete {state : JobState}
    {order : List (Sigma fun _ : String => List LogEntry)} (perm : order.Perm state.logs.entries)
    (own : ∀ h, ∀ e ∈ state.entries h, e.hostname = h)
    (shows : ∀ h, c.Shows h (state.entries h)) (hostname : String) :
    (order.foldl printHost c).printedFor hostname = state.entries hostname ∧
      (order.foldl printHost c).offset hostname = (state.entries hostname).length := by
  have listed : ∀ host ∈ order, state.entries host.1 = host.2 := by
    intro host member
    rw [JobState.entries, AList.mem_lookup_iff.mpr (perm.mem_iff.mp member)]
    rfl
  have own' : ∀ host ∈ order, ∀ e ∈ host.2, e.hostname = host.1 := by
    intro host member
    rw [← listed host member]
    exact own host.1
  have shows' : ∀ host ∈ order, c.Shows host.1 host.2 := by
    intro host member
    rw [← listed host member]
    exact shows host.1
  have distinct : (order.map Sigma.fst).Nodup :=
    (perm.map Sigma.fst).nodup_iff.mpr state.logs.nodupKeys
  by_cases visited : ∃ host ∈ order, host.1 = hostname
  · obtain ⟨host, member, rfl⟩ := visited
    rw [listed host member]
    exact foldl_printHost_of_mem distinct own' shows' member
  · have absent : ∀ host ∈ order, hostname ≠ host.1 := fun host member same =>
      visited ⟨host, member, same.symm⟩
    obtain ⟨printed, offset⟩ := @foldl_printHost_of_not_mem c hostname order own' absent
    have none : state.entries hostname = [] := by
      have missing : hostname ∉ state.logs := by
        intro member
        obtain ⟨host, hh, same⟩ := List.mem_map.mp (AList.mem_keys.mp member)
        exact absent host (perm.mem_iff.mpr hh) same.symm
      rw [JobState.entries, AList.lookup_eq_none.mpr missing]
      rfl
    have shown := shows hostname
    rw [none] at shown ⊢
    refine ⟨by rw [printed, shown.printed, List.take_nil], ?_⟩
    rw [offset]
    exact Nat.le_zero.mp shown.offset_le

end Client

end There
