import Mathlib.Data.List.AList
import There.Text.Escape

/-!
# Task sets, plans and host files

The data model shared by the planner, the executors and the two dispatchers.
Names follow the source. A host file is read into two hash maps; a map is a
duplicate-free association list whose entries stand in the order in which an
iteration visits them, so a statement about every `HostConfig` is a statement
about every iteration order.

An error is an eyre report. Only its message and the one typed payload that the
dispatchers look for are kept.
-/

namespace There

/-- A hash map. `entries` is its iteration order; no key occurs twice. -/
abbrev HashMap (κ ν : Type) : Type := AList (fun _ : κ => ν)

/-- An eyre report: a message, or the typed error of a failed plan application. -/
inductive Report where
  | msg (text : String)
  | planApplyFailed (host : String) (tasksCompleted : Nat) (source : Report)
deriving Repr, DecidableEq

/-- How a function that may panic ends when it does not return a value. -/
inductive Abort where
  | error (report : Report)
  | panic (site : String)
deriving Repr, DecidableEq

/-- The port used when a host entry names none. -/
def defaultSshPort : UInt16 := 22

structure Host where
  host : String
  port : UInt16 := defaultSshPort
  executor : String
  remoteUser : Option String := none
deriving Repr, DecidableEq

/-- The remote user of a host, `root` when none is set. -/
def Host.realRemoteUser (h : Host) : String := h.remoteUser.getD "root"

/-- Hosts by name, and groups of host names. -/
structure HostConfig where
  hosts : HashMap String Host
  groups : HashMap String (List String)

namespace HostConfig

/-- Every member of every group, in the order in which the dispatch loops meet them. -/
def members (hosts : HostConfig) : List String :=
  hosts.groups.entries.flatMap (·.2)

end HostConfig

/-- A potential command, as it is written in a plan file. -/
inductive Task where
  | command (name command : String) (hosts : List String)
  | createDirectory (name path : String) (hosts : List String)
  | touchFile (name path : String) (hosts : List String)
deriving Repr, DecidableEq

namespace Task

def name : Task → String
  | command name _ _ => name
  | createDirectory name _ _ => name
  | touchFile name _ _ => name

def hosts : Task → List String
  | command _ _ hosts => hosts
  | createDirectory _ _ hosts => hosts
  | touchFile _ _ hosts => hosts

end Task

structure TaskSet where
  name : String
  tasks : List Task
deriving Repr, DecidableEq

/-- A validation that runs on the host before the command of its task. -/
inductive Ensure where
  | fileExists (path : String)
  | directoryExists (path : String)
  | fileDoesntExist (path : String)
  | directoryDoesntExist (path : String)
  | exeExists (exe : String)
deriving Repr, DecidableEq

/-- The debug form of a character inside a string. -/
def debugChar (c : Char) : String :=
  if c = '\x00' then "\\0"
  else if c = '\t' then "\\t"
  else if c = '\r' then "\\r"
  else if c = '\n' then "\\n"
  else if c = '"' then "\\\""
  else if c = '\\' then "\\\\"
  else if Text.isEscaped c then
    "\\u\x7b" ++ String.ofList (Nat.toDigits 16 c.toNat) ++ "\x7d"
  else c.toString

def debugString (s : String) : String := "\"" ++ String.join (s.toList.map debugChar) ++ "\""

/-- The debug form of an ensure, which the executors write into their logs. -/
def Ensure.debug : Ensure → String
  | .fileExists path => "FileExists \x7b path: " ++ debugString path ++ " \x7d"
  | .directoryExists path => "DirectoryExists \x7b path: " ++ debugString path ++ " \x7d"
  | .fileDoesntExist path => "FileDoesntExist \x7b path: " ++ debugString path ++ " \x7d"
  | .directoryDoesntExist path =>
      "DirectoryDoesntExist \x7b path: " ++ debugString path ++ " \x7d"
  | .exeExists exe => "ExeExists \x7b exe: " ++ debugString exe ++ " \x7d"

/-- The debug form of the failed ensures of a task. -/
def debugEnsures (ensures : List Ensure) : String :=
  "[" ++ ", ".intercalate (ensures.map Ensure.debug) ++ "]"

structure PlannedTask where
  name : String
  command : List String
  ensures : List Ensure
  hosts : List String
deriving Repr, DecidableEq

structure Plan where
  name : String
  blueprint : List PlannedTask
deriving Repr, DecidableEq

/-- The names of the groups that list a host. -/
def HostConfig.groupNames (hosts : HostConfig) (host : String) : List String :=
  (hosts.groups.entries.filter fun g => g.2.contains host).map Sigma.fst

/-- The plan of one host: the tasks that name the host, or a group that lists it. -/
def Plan.planForHost (plan : Plan) (host : String) (hosts : HostConfig) : Plan where
  name := plan.name
  blueprint := plan.blueprint.filterMap fun task =>
    if task.hosts.contains host || task.hosts.any (hosts.groupNames host).contains then
      some task
    else
      none

/-- A task applies to a host when it names the host itself or a group that lists it. -/
def PlannedTask.AppliesTo (task : PlannedTask) (host : String) (hosts : HostConfig) : Prop :=
  host ∈ task.hosts ∨ ∃ g ∈ hosts.groups.entries, g.1 ∈ task.hosts ∧ host ∈ g.2

instance (task : PlannedTask) (host : String) (hosts : HostConfig) :
    Decidable (task.AppliesTo host hosts) :=
  inferInstanceAs (Decidable (_ ∨ _))

theorem HostConfig.mem_groupNames {hosts : HostConfig} {host name : String} :
    name ∈ hosts.groupNames host ↔ ∃ g ∈ hosts.groups.entries, g.1 = name ∧ host ∈ g.2 := by
  simp only [groupNames, List.mem_map, List.mem_filter, List.contains_iff_mem]
  constructor
  · rintro ⟨g, ⟨hg, hm⟩, rfl⟩
    exact ⟨g, hg, rfl, hm⟩
  · rintro ⟨g, hg, rfl, hm⟩
    exact ⟨g, ⟨hg, hm⟩, rfl⟩

namespace Plan

variable {plan : Plan} {host : String} {hosts : HostConfig} {task : PlannedTask}

/-- The nested scan of the source selects exactly the tasks that apply. -/
theorem planForHost_blueprint :
    (plan.planForHost host hosts).blueprint =
      plan.blueprint.filter fun task => decide (task.AppliesTo host hosts) := by
  rw [planForHost, ← List.filterMap_eq_filter]
  refine List.filterMap_congr fun task _ => ?_
  have selected : (task.hosts.contains host ||
      task.hosts.any (hosts.groupNames host).contains) = true ↔ task.AppliesTo host hosts := by
    simp only [Bool.or_eq_true, List.contains_iff_mem, List.any_eq_true,
      HostConfig.mem_groupNames, PlannedTask.AppliesTo]
    refine or_congr_right ⟨?_, ?_⟩
    · rintro ⟨_, hn, g, hg, rfl, hm⟩
      exact ⟨g, hg, hn, hm⟩
    · rintro ⟨g, hg, hn, hm⟩
      exact ⟨_, hn, g, hg, rfl, hm⟩
  by_cases h : task.AppliesTo host hosts
  · rw [if_pos (selected.mpr h)]
    simp [Option.guard, h]
  · rw [if_neg (selected.not.mpr h)]
    simp [Option.guard, h]

theorem mem_planForHost :
    task ∈ (plan.planForHost host hosts).blueprint ↔
      task ∈ plan.blueprint ∧ task.AppliesTo host hosts := by
  simp [planForHost_blueprint]

/-- Selection keeps the order and the multiplicity of the tasks it selects. -/
theorem planForHost_sublist :
    (plan.planForHost host hosts).blueprint.Sublist plan.blueprint := by
  rw [planForHost_blueprint]
  exact List.filter_sublist

/-- A host has something to do exactly when some task of the plan applies to it. -/
theorem planForHost_ne_nil :
    (plan.planForHost host hosts).blueprint ≠ [] ↔
      ∃ task ∈ plan.blueprint, task.AppliesTo host hosts := by
  rw [planForHost_blueprint, ne_eq, List.filter_eq_nil_iff]
  simp

end Plan

end There
