import There.Effect.WP
import There.Plan.Basic

/-!
# The two dispatch loops

`plan apply` without a controller and the controller's `apply_plan` walk over the
groups of the host file and push one `do_apply` future for every member whose
own plan is not empty. Both stop at the first member they cannot dispatch; the
futures pushed before it are then dropped without having been polled.

The controller's loop is a copy of the CLI's with the choice of an executor left
out. Each is kept as its source has it and shown to be `dispatchWith` at its own
choice, so every fact about dispatching is proved once.
-/

namespace There

inductive ExecutorType where
  | local
  | ssh
deriving Repr, DecidableEq

/-- The arguments of one pushed `do_apply`. -/
structure Dispatch where
  plan : Plan
  hostname : String
  host : Host
  executorType : ExecutorType
deriving Repr, DecidableEq

/-- The loop state is the collection of futures pushed so far. -/
abbrev Dispatching (α : Type) : Type := EStateM Report (List Dispatch) α

def hostNotFound (hostname : String) : Report := .msg s!"hostname not in host map: {hostname}"

def unknownExecutor (executor : String) : Report := .msg s!"unknown executor type: {executor}"

namespace Cli

/-- The executor that the CLI starts for the executor name of a host entry. -/
def executorType (host : Host) : Except Report ExecutorType :=
  match host.executor with
  | "simple" => .ok .local
  | "local" => .ok .local
  | "ssh" => .ok .ssh
  | executor => .error (unknownExecutor executor)

/-- The dispatch loop of `subcommand_apply` on the path without a controller. -/
def dispatch (plan : Plan) (hosts : HostConfig) : Dispatching PUnit :=
  forM hosts.groups.entries fun group =>
    forM group.2 fun hostname => do
      let plan := plan.planForHost hostname hosts
      if plan.blueprint.isEmpty then
        pure ⟨⟩
      else
        match hosts.hosts.lookup hostname with
        | none => throw (hostNotFound hostname)
        | some host =>
            match executorType host with
            | .error e => throw e
            | .ok executorType => modify (· ++ [⟨plan, hostname, host, executorType⟩])

end Cli

namespace Controller

/-- The controller's `do_apply` builds an SSH executor for every host; the
executor name of the host entry is not looked at. -/
def executorType (_ : Host) : Except Report ExecutorType := .ok .ssh

/-- The dispatch loop of `apply_plan`. -/
def dispatch (plan : Plan) (hosts : HostConfig) : Dispatching PUnit :=
  forM hosts.groups.entries fun group =>
    forM group.2 fun hostname => do
      let plan := plan.planForHost hostname hosts
      if plan.blueprint.isEmpty then
        pure ⟨⟩
      else
        match hosts.hosts.lookup hostname with
        | none => throw (hostNotFound hostname)
        | some host => modify (· ++ [⟨plan, hostname, host, .ssh⟩])

end Controller

section General

variable (executorType : Host → Except Report ExecutorType)

/-- What one iteration decides about a member: fail, skip it, or push a future. -/
def select (plan : Plan) (hosts : HostConfig) (hostname : String) :
    Except Report (Option Dispatch) :=
  if (plan.planForHost hostname hosts).blueprint = [] then
    .ok none
  else
    match hosts.hosts.lookup hostname with
    | none => .error (hostNotFound hostname)
    | some host =>
        match executorType host with
        | .error e => .error e
        | .ok kind => .ok (some ⟨plan.planForHost hostname hosts, hostname, host, kind⟩)

/-- The loop that both dispatchers run, over the members of all groups. -/
def dispatchWith (plan : Plan) (hosts : HostConfig) : Dispatching PUnit :=
  forM hosts.members fun hostname => Effect.push (select executorType plan hosts hostname)

/-- A member that the loop passes: it has nothing to do, or it is in the host map
and an executor is chosen for it. -/
def Admits (plan : Plan) (hosts : HostConfig) (hostname : String) : Prop :=
  (plan.planForHost hostname hosts).blueprint = [] ∨
    ∃ host ∈ hosts.hosts.lookup hostname, (executorType host).isOk

instance (plan : Plan) (hosts : HostConfig) : DecidablePred (Admits executorType plan hosts) :=
  fun _ => inferInstanceAs (Decidable (_ ∨ _))

end General

theorem Cli.dispatch_eq (plan : Plan) (hosts : HostConfig) :
    Cli.dispatch plan hosts = dispatchWith Cli.executorType plan hosts := by
  rw [dispatchWith, HostConfig.members, ← Effect.forM_forM]
  refine congrArg _ (funext fun group => congrArg _ (funext fun hostname => ?_))
  rw [select]
  by_cases empty : (plan.planForHost hostname hosts).blueprint = []
  · simp only [empty, List.isEmpty_nil, ↓reduceIte, Effect.push]
  · simp only [empty, List.isEmpty_iff, ↓reduceIte]
    cases hosts.hosts.lookup hostname with
    | none => rfl
    | some host => cases h : Cli.executorType host <;> simp only [h, Effect.push]

theorem Controller.dispatch_eq (plan : Plan) (hosts : HostConfig) :
    Controller.dispatch plan hosts = dispatchWith Controller.executorType plan hosts := by
  rw [dispatchWith, HostConfig.members, ← Effect.forM_forM]
  refine congrArg _ (funext fun group => congrArg _ (funext fun hostname => ?_))
  rw [select]
  by_cases empty : (plan.planForHost hostname hosts).blueprint = []
  · simp only [empty, List.isEmpty_nil, ↓reduceIte, Effect.push]
  · simp only [empty, List.isEmpty_iff, ↓reduceIte]
    cases hosts.hosts.lookup hostname with
    | none => rfl
    | some host => rfl

namespace Dispatching

/-- The futures that a dispatch loop has pushed when it ends. -/
def pushes (loop : Dispatching PUnit) : List Dispatch := Effect.finalState (loop [])

/-- The loop runs to its end without an error. -/
def Succeeds (loop : Dispatching PUnit) : Prop := Effect.outcome (loop []) = .ok ⟨⟩

end Dispatching

section Facts

variable {executorType : Host → Except Report ExecutorType} {plan : Plan} {hosts : HostConfig}
variable {hostname : String}

theorem select_isOk :
    (select executorType plan hosts hostname).isOk ↔ Admits executorType plan hosts hostname := by
  rw [select, Admits]
  split
  · simp [*]
  · rename_i h
    cases hl : hosts.hosts.lookup hostname with
    | none => simp [h]
    | some host =>
        cases hk : executorType host <;> simp [h, hk]

/-- What the loop pushes for a host: the host's own plan, never an empty one. -/
theorem select_eq_some {d : Dispatch} (h : select executorType plan hosts hostname = .ok (some d)) :
    d.hostname = hostname ∧ d.plan = plan.planForHost hostname hosts ∧
      d.plan.blueprint ≠ [] ∧ hosts.hosts.lookup hostname = some d.host ∧
      executorType d.host = .ok d.executorType := by
  rw [select] at h
  split at h
  · cases h
  · rename_i ne
    cases hl : hosts.hosts.lookup hostname with
    | none => simp [hl] at h
    | some host =>
        cases hk : executorType host with
        | error e => simp [hl, hk] at h
        | ok kind =>
            simp only [hl, hk, Except.ok.injEq, Option.some.injEq] at h
            subst h
            exact ⟨rfl, rfl, ne, rfl, hk⟩

/-- A member that is passed is pushed exactly when its own plan is not empty. -/
theorem select_hostname (h : Admits executorType plan hosts hostname) :
    (select executorType plan hosts hostname).toOption.join.map Dispatch.hostname =
      if (plan.planForHost hostname hosts).blueprint = [] then none else some hostname := by
  rw [select]
  split
  · rfl
  · rename_i ne
    obtain ⟨host, hl, hk⟩ := h.resolve_left ne
    rw [Option.mem_def] at hl
    cases he : executorType host with
    | error e => simp [he] at hk
    | ok kind => simp [hl, he, Except.toOption]

/-- The futures pushed are those of the members before the first inadmissible one. -/
theorem pushes_dispatchWith :
    (dispatchWith executorType plan hosts).pushes =
      Effect.pushed (select executorType plan hosts) hosts.members := by
  rw [Dispatching.pushes, dispatchWith, (Effect.forM_push _ _ _).1, List.nil_append]

theorem succeeds_dispatchWith :
    (dispatchWith executorType plan hosts).Succeeds ↔
      ∀ h ∈ hosts.members, Admits executorType plan hosts h := by
  rw [Dispatching.Succeeds, dispatchWith, (Effect.forM_push _ _ _).2]
  simp only [select_isOk]

theorem mem_pushes {d : Dispatch} (h : d ∈ (dispatchWith executorType plan hosts).pushes) :
    d.hostname ∈ hosts.members ∧ d.plan = plan.planForHost d.hostname hosts ∧
      d.plan.blueprint ≠ [] ∧ hosts.hosts.lookup d.hostname = some d.host ∧
      executorType d.host = .ok d.executorType := by
  rw [pushes_dispatchWith] at h
  obtain ⟨hostname, hm, hs⟩ := Effect.mem_pushed h
  obtain ⟨rfl, rest⟩ := select_eq_some hs
  exact ⟨hm, rest⟩

/-- The host names pushed, with repetitions: the members that the loop reaches
and that have something to do. -/
theorem pushes_hostname :
    (dispatchWith executorType plan hosts).pushes.map Dispatch.hostname =
      (hosts.members.takeWhile fun h => decide (Admits executorType plan hosts h)).filter
        fun h => decide ((plan.planForHost h hosts).blueprint ≠ []) := by
  rw [pushes_dispatchWith, Effect.pushed, List.map_filterMap, ← List.filterMap_eq_filter]
  have reached : (fun h => (select executorType plan hosts h).isOk) =
      fun h => decide (Admits executorType plan hosts h) :=
    funext fun h => Bool.eq_iff_iff.mpr (by rw [select_isOk, decide_eq_true_eq])
  rw [reached]
  refine List.filterMap_congr fun h hm => ?_
  have admitted : Admits executorType plan hosts h := by
    simpa using (List.mem_takeWhile_imp hm)
  rw [select_hostname admitted]
  by_cases he : (plan.planForHost h hosts).blueprint = [] <;> simp [Option.guard, he]

end Facts

end There
