import There.Dispatch.Basic

/-!
# Which hosts a dispatch covers, and how often

The loops enumerate the members of every group, while the plan of a host is
selected by a scan of its own over all groups. A host that two groups list is
therefore dispatched once for each of them, every time with its complete plan,
and a host that no group lists is never dispatched, even when a task names it.

Both facts are stated as equivalences: the condition on the host file under
which a dispatch reaches every targeted host, and reaches it once.
-/

namespace There

/-- One apply dispatches each host at most once, and hands a host no task more
often than the plan contains it. -/
structure AtMostOnce (plan : Plan) (pushes : List Dispatch) : Prop where
  hostname : ∀ h, (pushes.map Dispatch.hostname).count h ≤ 1
  task : ∀ h task, ((pushes.filter (·.hostname = h)).flatMap (·.plan.blueprint)).count task ≤
    plan.blueprint.count task

/-- No host with something to do is listed twice among the members that the loop
reaches, which are all members unless one of them is inadmissible. -/
def ListedOnce (executorType : Host → Except Report ExecutorType) (plan : Plan)
    (hosts : HostConfig) : Prop :=
  ∀ h, (plan.planForHost h hosts).blueprint ≠ [] →
    (hosts.members.takeWhile fun m => decide (Admits executorType plan hosts m)).count h ≤ 1

/-- Every host of the host map that some task of the plan applies to is dispatched,
with all the tasks that apply to it. -/
def Complete (plan : Plan) (hosts : HostConfig) (pushes : List Dispatch) : Prop :=
  ∀ h ∈ hosts.hosts, (∃ task ∈ plan.blueprint, task.AppliesTo h hosts) →
    ∃ d ∈ pushes, d.hostname = h ∧
      ∀ task ∈ plan.blueprint, task.AppliesTo h hosts → task ∈ d.plan.blueprint

/-- Every host of the host map that some task applies to belongs to a group. -/
def TargetsGrouped (plan : Plan) (hosts : HostConfig) : Prop :=
  ∀ h ∈ hosts.hosts, (∃ task ∈ plan.blueprint, task.AppliesTo h hosts) → h ∈ hosts.members

section General

variable {executorType : Host → Except Report ExecutorType} {plan : Plan} {hosts : HostConfig}

/-- If a host is pushed at most once, it receives at most the tasks of its own plan. -/
theorem count_task_le {h : String} {task : PlannedTask}
    (once : ((dispatchWith executorType plan hosts).pushes.map Dispatch.hostname).count h ≤ 1) :
    (((dispatchWith executorType plan hosts).pushes.filter (·.hostname = h)).flatMap
      (·.plan.blueprint)).count task ≤ plan.blueprint.count task := by
  have few :
      ((dispatchWith executorType plan hosts).pushes.filter (·.hostname = h)).length ≤ 1 := by
    rw [List.count, List.countP_map] at once
    rw [← List.countP_eq_length_filter]
    exact once
  cases hd : (dispatchWith executorType plan hosts).pushes.filter (·.hostname = h) with
  | nil => simp
  | cons d rest =>
      obtain rfl : rest = [] := by simpa [hd] using few
      have pushed : d ∈ (dispatchWith executorType plan hosts).pushes := by
        have member : d ∈ [d] := List.mem_singleton_self d
        rw [← hd] at member
        exact (List.mem_filter.mp member).1
      have own : d.plan = plan.planForHost d.hostname hosts := (mem_pushes pushed).2.1
      simpa [own] using Plan.planForHost_sublist.count_le task

theorem atMostOnce_iff :
    AtMostOnce plan (dispatchWith executorType plan hosts).pushes ↔
      ListedOnce executorType plan hosts := by
  constructor
  · intro once h ne
    have := once.hostname h
    rwa [pushes_hostname, List.count_filter (by simpa using ne)] at this
  · intro listed
    have once : ∀ h, ((dispatchWith executorType plan hosts).pushes.map
        Dispatch.hostname).count h ≤ 1 := by
      intro h
      rw [pushes_hostname]
      by_cases ne : (plan.planForHost h hosts).blueprint = []
      · rw [List.count_eq_zero_of_not_mem]
        · exact Nat.zero_le 1
        · simp [List.mem_filter, ne]
      · rw [List.count_filter (by simpa using ne)]
        exact listed h ne
    exact ⟨once, fun h task => count_task_le (once h)⟩

/-- A dispatch that succeeds pushes every member that has something to do. -/
theorem exists_push {h : String} (success : (dispatchWith executorType plan hosts).Succeeds)
    (member : h ∈ hosts.members) (ne : (plan.planForHost h hosts).blueprint ≠ []) :
    ∃ d ∈ (dispatchWith executorType plan hosts).pushes, d.hostname = h := by
  have all := succeeds_dispatchWith.mp success
  have listed : h ∈ (dispatchWith executorType plan hosts).pushes.map Dispatch.hostname := by
    rw [pushes_hostname, List.takeWhile_eq_self_iff.mpr (by simpa using all), List.mem_filter]
    exact ⟨member, by simpa using ne⟩
  simpa using listed

theorem complete_iff :
    ((dispatchWith executorType plan hosts).Succeeds →
        Complete plan hosts (dispatchWith executorType plan hosts).pushes) ↔
      ((∀ h ∈ hosts.members, Admits executorType plan hosts h) → TargetsGrouped plan hosts) := by
  rw [succeeds_dispatchWith]
  refine imp_congr_right fun all => ?_
  constructor
  · intro complete h hm targeted
    obtain ⟨d, hd, rfl, -⟩ := complete h hm targeted
    exact (mem_pushes hd).1
  · intro grouped h hm targeted
    have member := grouped h hm targeted
    obtain ⟨d, hd, rfl⟩ := exists_push (succeeds_dispatchWith.mpr all) member
      (Plan.planForHost_ne_nil.mpr targeted)
    refine ⟨d, hd, rfl, fun task ht applies => ?_⟩
    rw [(mem_pushes hd).2.1]
    exact Plan.mem_planForHost.mpr ⟨ht, applies⟩

end General

/-- A host is dispatched at most once exactly when no host with something to do is
listed twice among the members that the loop reaches. -/
theorem dispatch_atMostOnce_iff (plan : Plan) (hosts : HostConfig) :
    (AtMostOnce plan (Cli.dispatch plan hosts).pushes ↔
        ListedOnce Cli.executorType plan hosts) ∧
      (AtMostOnce plan (Controller.dispatch plan hosts).pushes ↔
        ListedOnce Controller.executorType plan hosts) := by
  rw [Cli.dispatch_eq, Controller.dispatch_eq]
  exact ⟨atMostOnce_iff, atMostOnce_iff⟩

/-- A dispatch that succeeds covers every targeted host exactly when every targeted
host of the host map belongs to a group. -/
theorem dispatch_complete_iff (plan : Plan) (hosts : HostConfig) :
    (((Cli.dispatch plan hosts).Succeeds →
          Complete plan hosts (Cli.dispatch plan hosts).pushes) ↔
        ((∀ h ∈ hosts.members, Admits Cli.executorType plan hosts h) →
          TargetsGrouped plan hosts)) ∧
      (((Controller.dispatch plan hosts).Succeeds →
          Complete plan hosts (Controller.dispatch plan hosts).pushes) ↔
        ((∀ h ∈ hosts.members, Admits Controller.executorType plan hosts h) →
          TargetsGrouped plan hosts)) := by
  rw [Cli.dispatch_eq, Controller.dispatch_eq]
  exact ⟨complete_iff, complete_iff⟩

namespace Overlap

/-- One task, aimed at a group. -/
def plan : Plan :=
  ⟨"test plan", [⟨"test command", ["echo", "hi"], [.exeExists "echo"], ["web"]⟩]⟩

/-- The host `a` is listed by two groups. -/
def hosts : HostConfig where
  hosts := AList.insert "a" { host := "localhost", executor := "ssh" } ∅
  groups := AList.insert "web" ["a"] (AList.insert "db" ["a"] ∅)

end Overlap

theorem dispatch_not_atMostOnce :
    ¬ AtMostOnce Overlap.plan (Cli.dispatch Overlap.plan Overlap.hosts).pushes ∧
      ¬ AtMostOnce Overlap.plan (Controller.dispatch Overlap.plan Overlap.hosts).pushes := by
  constructor
  · intro once
    exact absurd (once.hostname "a") (by decide)
  · intro once
    exact absurd (once.hostname "a") (by decide)

namespace Ungrouped

/-- One task, aimed at a host by its own name. -/
def plan : Plan :=
  ⟨"test plan", [⟨"test command", ["echo", "hi"], [.exeExists "echo"], ["a"]⟩]⟩

/-- The host `a` belongs to no group. -/
def hosts : HostConfig where
  hosts := AList.insert "a" { host := "localhost", executor := "ssh" } ∅
  groups := ∅

end Ungrouped

theorem dispatch_not_complete :
    ((Cli.dispatch Ungrouped.plan Ungrouped.hosts).Succeeds ∧
        ¬ Complete Ungrouped.plan Ungrouped.hosts
          (Cli.dispatch Ungrouped.plan Ungrouped.hosts).pushes) ∧
      ((Controller.dispatch Ungrouped.plan Ungrouped.hosts).Succeeds ∧
        ¬ Complete Ungrouped.plan Ungrouped.hosts
          (Controller.dispatch Ungrouped.plan Ungrouped.hosts).pushes) := by
  have targeted : ∃ task ∈ Ungrouped.plan.blueprint, task.AppliesTo "a" Ungrouped.hosts :=
    ⟨_, List.mem_singleton_self _, .inl (by decide)⟩
  refine ⟨⟨rfl, fun complete => ?_⟩, ⟨rfl, fun complete => ?_⟩⟩
  · obtain ⟨d, hd, -⟩ := complete "a" (by decide) targeted
    exact List.not_mem_nil hd
  · obtain ⟨d, hd, -⟩ := complete "a" (by decide) targeted
    exact List.not_mem_nil hd

end There
