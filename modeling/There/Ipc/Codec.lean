import There.Controller.Client
import There.Dispatch.Agreement
import There.Json.Derive

/-!
# Plans, host files and jobs as JSON

The representation that is derived for the types which the CLI and the controller exchange.
The names of fields and cases are those of the source. The map from names to fields is all
that a record is read by; a host entry may leave out its port and its remote user.

Whoever reads what the other has written gets the same plan, the same job status and the
same entries of every map, in the order in which its own map has them.
-/

namespace There

open Json

def serializeStrings (xs : List String) : Value := .array (xs.map .string)

namespace Ensure

/-- The name of the case, and the name and the value of its only field. -/
def parts : Ensure → String × String × String
  | fileExists path => ("FileExists", "path", path)
  | directoryExists path => ("DirectoryExists", "path", path)
  | fileDoesntExist path => ("FileDoesntExist", "path", path)
  | directoryDoesntExist path => ("DirectoryDoesntExist", "path", path)
  | exeExists exe => ("ExeExists", "exe", exe)

def serialize (ensure : Ensure) : Value :=
  let (name, label, argument) := ensure.parts
  .object [(name, .object [(label, .string argument)])]

def deserialize (v : Value) : Option Ensure := do
  let (name, content) ← readCase v
  if name = "FileExists" then (readSingle "path" readString content).map fileExists
  else if name = "DirectoryExists" then (readSingle "path" readString content).map directoryExists
  else if name = "FileDoesntExist" then (readSingle "path" readString content).map fileDoesntExist
  else if name = "DirectoryDoesntExist" then
    (readSingle "path" readString content).map directoryDoesntExist
  else if name = "ExeExists" then (readSingle "exe" readString content).map exeExists
  else none

end Ensure

namespace PlannedTask

def serialize (task : PlannedTask) : Value :=
  .object [("name", .string task.name), ("command", serializeStrings task.command),
    ("ensures", .array (task.ensures.map Ensure.serialize)),
    ("hosts", serializeStrings task.hosts)]

def deserialize (v : Value) : Option PlannedTask := do
  let fields ← readFields ["name", "command", "ensures", "hosts"] v
  some
    { name := ← field "name" readString fields
      command := ← field "command" (readList readString) fields
      ensures := ← field "ensures" (readList Ensure.deserialize) fields
      hosts := ← field "hosts" (readList readString) fields }

end PlannedTask

namespace Plan

def serialize (plan : Plan) : Value :=
  .object [("name", .string plan.name),
    ("blueprint", .array (plan.blueprint.map PlannedTask.serialize))]

def deserialize (v : Value) : Option Plan := do
  let fields ← readFields ["name", "blueprint"] v
  some
    { name := ← field "name" readString fields
      blueprint := ← field "blueprint" (readList PlannedTask.deserialize) fields }

end Plan

namespace Host

def serialize (h : Host) : Value :=
  .object [("host", .string h.host), ("port", .number (.ofNat h.port.toNat)),
    ("executor", .string h.executor), ("remote_user", h.remoteUser.elim .null .string)]

def readPort (v : Value) : Option UInt16 := (readNat 65535 v).map UInt16.ofNat

def deserialize (v : Value) : Option Host := do
  let fields ← readFields ["host", "port", "executor", "remote_user"] v
  some
    { host := ← field "host" readString fields
      port := ← fieldOr defaultSshPort "port" readPort fields
      executor := ← field "executor" readString fields
      remoteUser := ← fieldOr none "remote_user" (readOption readString) fields }

end Host

/-- A map as an object, its entries in the order of iteration. -/
def serializeMap {ν : Type} (encode : ν → Value) (map : HashMap String ν) : Value :=
  .object (map.entries.map fun e => (e.1, encode e.2))

namespace HostConfig

def serialize (hosts : HostConfig) : Value :=
  .object [("hosts", serializeMap Host.serialize hosts.hosts),
    ("groups", serializeMap serializeStrings hosts.groups)]

def deserialize (v : Value) : Option HostConfig := do
  let fields ← readFields ["hosts", "groups"] v
  some
    { hosts := ← field "hosts" (readMap Host.deserialize) fields
      groups := ← field "groups" (readMap (readList readString)) fields }

end HostConfig

namespace LogEntry

def serialize (entry : LogEntry) : Value :=
  .object [("hostname", .string entry.hostname), ("log", .string entry.log)]

def deserialize (v : Value) : Option LogEntry := do
  let fields ← readFields ["hostname", "log"] v
  some
    { hostname := ← field "hostname" readString fields
      log := ← field "log" readString fields }

end LogEntry

namespace JobStatus

def serialize : JobStatus → Value
  | running => .string "Running"
  | completed => .string "Completed"
  | failed => .string "Failed"

def deserialize (v : Value) : Option JobStatus := do
  let name ← readUnit v
  if name = "Running" then some running
  else if name = "Completed" then some completed
  else if name = "Failed" then some failed
  else none

end JobStatus

namespace JobState

def serialize (state : JobState) : Value :=
  .object [("logs", serializeMap (fun logs => .array (logs.map LogEntry.serialize)) state.logs),
    ("plan", state.plan.serialize), ("hosts", state.hosts.serialize),
    ("status", state.status.serialize)]

def deserialize (v : Value) : Option JobState := do
  let fields ← readFields ["logs", "plan", "hosts", "status"] v
  some
    { logs := ← field "logs" (readMap (readList LogEntry.deserialize)) fields
      plan := ← field "plan" Plan.deserialize fields
      hosts := ← field "hosts" HostConfig.deserialize fields
      status := ← field "status" JobStatus.deserialize fields }

end JobState

/-- What `plan apply` asks of the controller. -/
structure JobStartRequest where
  plan : Plan
  hosts : HostConfig

namespace JobStartRequest

def deserialize (v : Value) : Option JobStartRequest := do
  let fields ← readFields ["plan", "hosts"] v
  some
    { plan := ← field "plan" Plan.deserialize fields
      hosts := ← field "hosts" HostConfig.deserialize fields }

/-- The body of the request, as the CLI builds it. A `serde_json::Value` keeps the members of
its objects sorted by name. -/
def json (plan : Plan) (hosts : HostConfig) : Value :=
  (Value.object [("plan", plan.serialize), ("hosts", hosts.serialize)]).sorted

end JobStartRequest

section Reading

theorem reads_strings (xs : List String) :
    Reads (readList readString) (serializeStrings xs) (· = xs) :=
  Reads.list fun x _ => Reads.string x

theorem Ensure.reads (ensure : Ensure) : Reads deserialize ensure.serialize (· = ensure) := by
  intro w reorders
  obtain ⟨content, found, inner⟩ := Reads.case reorders
  have argument := (Reads.string _).single.eq_some inner
  refine ⟨ensure, ?_, rfl⟩
  cases ensure <;> simp_all [deserialize]

theorem PlannedTask.reads (task : PlannedTask) :
    Reads deserialize task.serialize (· = task) := by
  intro w reorders
  obtain ⟨fs, read, each⟩ := Reads.fields reorders (by simp) ["name", "command", "ensures", "hosts"]
  simp only [List.forall_mem_cons] at each
  obtain ⟨_, name, rfl⟩ := (Reads.string task.name).field each.1
  obtain ⟨_, command, rfl⟩ := (reads_strings task.command).field each.2.1
  obtain ⟨_, ensures, rfl⟩ := (Reads.list fun e _ => Ensure.reads e).field each.2.2.1
  obtain ⟨_, hosts, rfl⟩ := (reads_strings task.hosts).field each.2.2.2.1
  exact ⟨task, by simp [deserialize, read, name, command, ensures, hosts], rfl⟩

theorem Plan.reads (plan : Plan) : Reads deserialize plan.serialize (· = plan) := by
  intro w reorders
  obtain ⟨fs, read, each⟩ := Reads.fields reorders (by simp) ["name", "blueprint"]
  simp only [List.forall_mem_cons] at each
  obtain ⟨_, name, rfl⟩ := (Reads.string plan.name).field each.1
  obtain ⟨_, blueprint, rfl⟩ := (Reads.list fun t _ => PlannedTask.reads t).field each.2.1
  exact ⟨plan, by simp [deserialize, read, name, blueprint], rfl⟩

theorem Host.reads_port (port : UInt16) :
    Reads readPort (.number (.ofNat port.toNat)) (· = port) := by
  intro w reorders
  have le : port.toNat ≤ 65535 := Nat.le_of_lt_succ port.toNat_lt
  refine ⟨port, ?_, rfl⟩
  rw [readPort, (Reads.nat le).eq_some reorders, Option.map_some, UInt16.ofNat_toNat]

theorem Host.reads (h : Host) : Reads deserialize h.serialize (· = h) := by
  intro w reorders
  obtain ⟨fs, read, each⟩ :=
    Reads.fields reorders (by simp) ["host", "port", "executor", "remote_user"]
  simp only [List.forall_mem_cons] at each
  obtain ⟨_, host, rfl⟩ := (Reads.string h.host).field each.1
  obtain ⟨_, port, rfl⟩ := (reads_port h.port).fieldOr defaultSshPort each.2.1
  obtain ⟨_, executor, rfl⟩ := (Reads.string h.executor).field each.2.2.1
  obtain ⟨_, remoteUser, rfl⟩ :=
    (Reads.option (by simp) fun a _ => Reads.string a).fieldOr none each.2.2.2.1
  exact ⟨h, by simp [deserialize, read, host, port, executor, remoteUser], rfl⟩

theorem reads_map {ν : Type} {encode : ν → Value} {decode : Value → Option ν}
    (map : HashMap String ν) (each : ∀ x, Reads decode (encode x) (· = x)) :
    Reads (readMap decode) (serializeMap encode map)
      fun map' => map'.entries.Perm map.entries :=
  Reads.map map fun e _ => each e.2

/-- A host file is read as the same file, in another order. -/
theorem HostConfig.reads (hosts : HostConfig) :
    Reads deserialize hosts.serialize fun hosts' => hosts'.SameFile hosts := by
  intro w reorders
  obtain ⟨fs, read, each⟩ := Reads.fields reorders (by simp) ["hosts", "groups"]
  simp only [List.forall_mem_cons] at each
  obtain ⟨hosts', hostMap, perm⟩ := (reads_map hosts.hosts Host.reads).field each.1
  obtain ⟨groups', groupMap, perm'⟩ := (reads_map hosts.groups reads_strings).field each.2.1
  exact ⟨⟨hosts', groups'⟩, by simp [deserialize, read, hostMap, groupMap], perm, perm'⟩

theorem LogEntry.reads (entry : LogEntry) : Reads deserialize entry.serialize (· = entry) := by
  intro w reorders
  obtain ⟨fs, read, each⟩ := Reads.fields reorders (by simp) ["hostname", "log"]
  simp only [List.forall_mem_cons] at each
  obtain ⟨_, hostname, rfl⟩ := (Reads.string entry.hostname).field each.1
  obtain ⟨_, log, rfl⟩ := (Reads.string entry.log).field each.2.1
  exact ⟨entry, by simp [deserialize, read, hostname, log], rfl⟩

theorem JobStatus.reads (status : JobStatus) :
    Reads deserialize status.serialize (· = status) := by
  intro w reorders
  have same : w = status.serialize := by
    cases status <;> exact (Value.reorders_scalar rfl).mp reorders
  subst same
  cases status <;> exact ⟨_, rfl, rfl⟩

/-- The state of a job as somebody else has it: its maps in another order. -/
structure JobState.Same (state state' : JobState) : Prop where
  logs : state.logs.entries.Perm state'.logs.entries
  plan : state.plan = state'.plan
  hosts : state.hosts.SameFile state'.hosts
  status : state.status = state'.status

theorem JobState.reads (state : JobState) :
    Reads deserialize state.serialize fun state' => state'.Same state := by
  intro w reorders
  obtain ⟨fs, read, each⟩ := Reads.fields reorders (by simp) ["logs", "plan", "hosts", "status"]
  simp only [List.forall_mem_cons] at each
  obtain ⟨logs', logs, perm⟩ := (reads_map state.logs fun _ =>
    Reads.list fun entry _ => LogEntry.reads entry).field each.1
  obtain ⟨_, plan, rfl⟩ := (Plan.reads state.plan).field each.2.1
  obtain ⟨hosts', hosts, sameFile⟩ := (HostConfig.reads state.hosts).field each.2.2.1
  obtain ⟨_, status, rfl⟩ := (JobStatus.reads state.status).field each.2.2.2.1
  exact ⟨⟨logs', state.plan, hosts', state.status⟩,
    by simp [deserialize, read, logs, plan, hosts, status], perm, rfl, sameFile, rfl⟩

/-- The request is read as it was meant, its host file in another order. -/
theorem JobStartRequest.reads (plan : Plan) (hosts : HostConfig) :
    Reads deserialize (.object [("plan", plan.serialize), ("hosts", hosts.serialize)])
      fun request => request.plan = plan ∧ request.hosts.SameFile hosts := by
  intro w reorders
  obtain ⟨fs, read, each⟩ := Reads.fields reorders (by simp) ["plan", "hosts"]
  simp only [List.forall_mem_cons] at each
  obtain ⟨_, plan', rfl⟩ := (Plan.reads plan).field each.1
  obtain ⟨hosts', hosts'', sameFile⟩ := (HostConfig.reads hosts).field each.2.1
  exact ⟨⟨_, hosts'⟩, by simp [deserialize, read, plan', hosts''], rfl, sameFile⟩

end Reading

section Nesting

variable {n : Nat}

theorem depth_strings (xs : List String) : (serializeStrings xs).depth ≤ 1 :=
  Value.depth_array_le.mpr (List.forall_mem_map.mpr fun _ _ => Nat.le_refl 0)

theorem depth_map {ν : Type} {encode : ν → Value} (map : HashMap String ν)
    (each : ∀ x, (encode x).depth ≤ n) : (serializeMap encode map).depth ≤ n + 1 :=
  Value.depth_object_le.mpr (List.forall_mem_map.mpr fun e _ => each e.2)

theorem PlannedTask.depth_le (task : PlannedTask) : task.serialize.depth ≤ 4 := by
  have ensure : ∀ e : Ensure, e.serialize.depth ≤ 2 := by
    intro e
    cases e <;> exact Nat.le_refl 2
  have ensures : (Value.array (task.ensures.map Ensure.serialize)).depth ≤ 3 :=
    Value.depth_array_le.mpr (List.forall_mem_map.mpr fun e _ => ensure e)
  have command := depth_strings task.command
  have hosts := depth_strings task.hosts
  refine Value.depth_object_le.mpr ?_
  simp only [List.forall_mem_cons, Value.depth]
  refine ⟨by omega, by omega, ensures, by omega, by simp⟩

theorem Plan.depth_le (plan : Plan) : plan.serialize.depth ≤ 6 := by
  have tasks : (Value.array (plan.blueprint.map PlannedTask.serialize)).depth ≤ 5 :=
    Value.depth_array_le.mpr (List.forall_mem_map.mpr fun task _ => task.depth_le)
  refine Value.depth_object_le.mpr ?_
  simp only [List.forall_mem_cons, Value.depth]
  exact ⟨by omega, tasks, by simp⟩

theorem Host.depth_le (h : Host) : h.serialize.depth ≤ 1 := by
  refine Value.depth_object_le.mpr ?_
  cases h.remoteUser <;> simp [Value.depth]

theorem HostConfig.depth_le (hosts : HostConfig) : hosts.serialize.depth ≤ 3 := by
  have hostMap := depth_map hosts.hosts Host.depth_le
  have groupMap := depth_map hosts.groups depth_strings
  refine Value.depth_object_le.mpr ?_
  simp only [List.forall_mem_cons]
  exact ⟨hostMap, groupMap, by simp⟩

theorem LogEntry.depth_le (entry : LogEntry) : entry.serialize.depth ≤ 1 := by
  refine Value.depth_object_le.mpr ?_
  simp [Value.depth]

theorem JobState.depth_le (state : JobState) : state.serialize.depth ≤ 7 := by
  have logs : ∀ entries : List LogEntry,
      (Value.array (entries.map LogEntry.serialize)).depth ≤ 2 := fun entries =>
    Value.depth_array_le.mpr (List.forall_mem_map.mpr fun entry _ => entry.depth_le)
  have logMap := depth_map state.logs logs
  have plan := state.plan.depth_le
  have hosts := state.hosts.depth_le
  refine Value.depth_object_le.mpr ?_
  simp only [List.forall_mem_cons]
  refine ⟨by omega, plan, by omega, ?_, by simp⟩
  cases state.status <;> exact Nat.zero_le 6

theorem JobStartRequest.depth_le (plan : Plan) (hosts : HostConfig) :
    (Value.object [("plan", plan.serialize), ("hosts", hosts.serialize)]).depth ≤ 7 := by
  have planned := plan.depth_le
  have hostFile := hosts.depth_le
  refine Value.depth_object_le.mpr ?_
  simp only [List.forall_mem_cons]
  exact ⟨planned, by omega, by simp⟩

end Nesting

namespace TwoHosts

/-- Two hosts, of which one leaves its port and its user to the defaults. -/
def hosts : HostConfig where
  hosts := AList.insert "web" { host := "10.0.0.1", executor := "ssh" }
    (AList.insert "db" ⟨"10.0.0.2", 2222, "local", some "postgres"⟩ ∅)
  groups := AList.insert "web" ["web"] (AList.insert "all" ["web", "db"] ∅)

def plan : Plan where
  name := "deploy"
  blueprint :=
    [⟨"log", ["touch", "/var/log/\"app\""], [.exeExists "touch", .directoryExists "/var/log"],
      ["web", "all"]⟩,
     ⟨"data", ["mkdir", "/data"], [.directoryExists "/data"], ["db"]⟩]

/-- A job that both hosts have written to. -/
def job : JobState where
  logs := AList.insert "web" [⟨"web", "* steps: 1"⟩, ⟨"web", "a\nb\t\"c\""⟩]
    (AList.insert "db" [⟨"db", "* steps: 2"⟩] ∅)
  plan := plan
  hosts := hosts
  status := .running

/-- Sorting by name moves members. -/
theorem sorted_ne : job.serialize.sorted ≠ job.serialize := by
  intro same
  have texts := congrArg Value.print same
  revert texts
  decide +kernel

end TwoHosts

section Texts

variable (serdeJson : Format 127)

/-- The state of a job is read as the controller has written it, but for the order of its
maps. Neither the order in which members are written nor that in which they are read makes
a difference. -/
theorem jobState_arrives (state : JobState) (w : Value) (written : w.Reorders state.serialize) :
    ∃ state', (serdeJson.parse (serdeJson.print w)).bind JobState.deserialize = some state' ∧
      state'.Same state :=
  state.reads.parse_print serdeJson written (Nat.le_trans state.depth_le (by decide))

/-- The controller writes what somebody else has sorted. -/
theorem jobState_arrives_twoHosts :
    TwoHosts.job.serialize.sorted ≠ TwoHosts.job.serialize ∧
    ∃ state', ((compact 127).parse ((compact 127).print TwoHosts.job.serialize.sorted)).bind
        JobState.deserialize = some state' ∧ state'.Same TwoHosts.job :=
  ⟨TwoHosts.sorted_ne, jobState_arrives (compact 127) _ _ (Value.sorted_reorders _)⟩

/-- The controller is asked for what the CLI was asked for: it reads the same plan, and the
same host file in another order. -/
theorem jobStartRequest_arrives (plan : Plan) (hosts : HostConfig) :
    ∃ request, (serdeJson.parse (serdeJson.print (JobStartRequest.json plan hosts))).bind
        JobStartRequest.deserialize = some request ∧
      request.plan = plan ∧ request.hosts.SameFile hosts :=
  (JobStartRequest.reads plan hosts).parse_print serdeJson (Value.sorted_reorders _)
    (Nat.le_trans (JobStartRequest.depth_le plan hosts) (by decide))

theorem jobStartRequest_arrives_twoHosts :
    ∃ request, ((compact 127).parse ((compact 127).print
        (JobStartRequest.json TwoHosts.plan TwoHosts.hosts))).bind
          JobStartRequest.deserialize = some request ∧
      request.plan = TwoHosts.plan ∧ request.hosts.SameFile TwoHosts.hosts :=
  jobStartRequest_arrives (compact 127) TwoHosts.plan TwoHosts.hosts

end Texts

end There
