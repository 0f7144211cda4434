import There.Concurrent.Isolation
import There.Controller.Alone
import There.Controller.Server

/-!
# The futures of a job do not disturb each other

The drain loop collects results as they come and stops at none, so nothing that has
become of another future keeps this one from its next step. Readers meet only at the
server state, and each appends to it whatever the others have done.

A host that never answers is a future that takes no more steps.
-/

namespace There

open Concurrent

/-- Futures are there only while the job is under way, and until the last of them is
collected the drain loop goes on. -/
structure Job.Open (job : Job) : Prop where
  idle : job.stage = .spawned → job.applies = []
  draining : ∀ a ∈ job.applies, a.stage ≠ .collected → job.stage = .draining

namespace Job

variable {job job' : Job} {i : Nat} {a a' : Apply}

theorem open_new (plan : Plan) (hosts : HostConfig) (world : Nat → World) :
    Open { plan, hosts, world } where
  idle := fun _ => rfl
  draining := by simp

theorem Open.set (opened : job.Open) (here : job.applies[i]? = some a)
    (collected : a.stage = .collected → a'.stage = .collected) :
    Open { job with applies := job.applies.set i a' } where
  idle := by
    intro spawned
    have none := opened.idle spawned
    rw [none] at here
    cases here
  draining := by
    intro b member running
    rcases List.mem_or_eq_of_mem_set member with old | rfl
    · exact opened.draining b old running
    · exact opened.draining a (List.mem_of_getElem? here) (mt collected running)

theorem Open.evolves {stored : Option JobState} {write : JobState → JobState}
    (opened : job.Open) (h : job.Evolves stored job' write) : job'.Open := by
  cases h with
  | moves h =>
      cases h with
      | fails spawned failed =>
          refine ⟨by simp, fun a member => ?_⟩
          rw [show job.applies = [] from opened.idle spawned] at member
          exact absurd member List.not_mem_nil
      | begins => exact ⟨by simp, fun _ _ _ => rfl⟩
      | apply here moved => exact opened.set here moved.collected
      | collect draining here taken =>
          have set := opened.set here fun _ => (Apply.collect_same taken).2.2
          exact ⟨set.idle, set.draining⟩
      | concludes draining collected =>
          exact ⟨by simp, fun a member running => absurd (collected a member) running⟩
      | print => exact ⟨opened.idle, opened.draining⟩
  | append here appended =>
      exact opened.set here fun collected => (Apply.append_same appended).2.2.trans collected
  | record concluded =>
      refine ⟨by simp, fun a member running => ?_⟩
      rw [opened.draining a member running] at concluded
      cases concluded
  | answer | panic => exact ⟨opened.idle, opened.draining⟩

/-- A step of a job leaves a future alone, or is a step of this future. -/
theorem step_future {act : Action} (opened : job.Open) (h : job.step act = some job')
    (here : job.applies[i]? = some a) :
    job'.applies[i]? = some a ∨
      (∃ own a', a.step own = some a' ∧ job'.applies[i]? = some a') ∨
      ∃ result a', a.collect = some (result, a') ∧ job'.applies[i]? = some a' := by
  have lt : i < job.applies.length := (List.getElem?_eq_some_iff.mp here).1
  cases act with
  | begin =>
      simp only [step] at h
      split at h
      · rename_i spawned
        rw [opened.idle spawned] at here
        cases here
      · cases h
  | apply k own =>
      simp only [step] at h
      by_cases same : k = i
      · subst same
        rw [here] at h
        obtain ⟨a', moved, rfl⟩ := Option.map_eq_some_iff.mp h
        exact .inr (.inl ⟨own, a', moved, by simp [lt]⟩)
      · split at h
        · obtain ⟨b, -, rfl⟩ := Option.map_eq_some_iff.mp h
          exact .inl (by simpa [List.getElem?_set_ne same] using here)
        · cases h
  | collect k =>
      simp only [step] at h
      split at h
      · by_cases same : k = i
        · subst same
          rw [here] at h
          obtain ⟨⟨result, a'⟩, taken, rfl⟩ := Option.map_eq_some_iff.mp h
          exact .inr (.inr ⟨result, a', taken, by simp [lt]⟩)
        · split at h
          · obtain ⟨b, -, rfl⟩ := Option.map_eq_some_iff.mp h
            exact .inl (by simpa [List.getElem?_set_ne same] using here)
          · cases h
      · cases h
  | conclude =>
      simp only [step] at h
      split at h
      · cases h
        exact .inl here
      · cases h
  | print order =>
      obtain ⟨client, -, rfl⟩ := Option.map_eq_some_iff.mp h
      exact .inl here

/-- A future that a step adds is fresh. -/
theorem Evolves.fresh {stored : Option JobState} {write : JobState → JobState}
    (h : job.Evolves stored job' write) (absent : job.applies[i]? = none)
    (here : job'.applies[i]? = some a) : a = { dispatch := a.dispatch, world := a.world } := by
  have set : ∀ {k : Nat} {b : Apply}, (job.applies.set k b)[i]? = none := by
    intro k b
    rw [List.getElem?_eq_none_iff, List.length_set]
    exact List.getElem?_eq_none_iff.mp absent
  cases h with
  | moves h =>
      cases h with
      | begins =>
          simp only [pushed, List.getElem?_mapIdx, Option.map_eq_some_iff] at here
          obtain ⟨d, -, rfl⟩ := here
          rfl
      | apply | collect => cases set.symm.trans here
      | _ => cases absent.symm.trans here
  | append => cases set.symm.trans here
  | _ => cases absent.symm.trans here

end Job

namespace System

/-- The future number `i` of a job. -/
def future (id : String) (i : Nat) (s : System) : Option Apply :=
  (s.job id).bind fun job => job.applies[i]?

/-- An action that takes a step of this future, and at which the cache evicts nothing. -/
def Action.of (id : String) (i : Nat) : Apply.Own → Action
  | .act act => .job id (.apply i act)
  | .append => .append id i []
  | .collect => .job id (.collect i)

variable {s t : System} {id : String} {i : Nat} {a a' : Apply} {job job' : Job}

theorem future_eq_some : s.future id i = some a ↔
    ∃ job, s.job id = some job ∧ job.applies[i]? = some a := Option.bind_eq_some_iff

theorem future_setJob (s : System) (job : Job) :
    (s.setJob id job).future id i = job.applies[i]? := by
  rw [future, setJob_job, Option.bind_some]

/-- Every job is open as long as it has to be. -/
def Open (s : System) : Prop := ∀ id job, s.job id = some job → job.Open

theorem Open.step {act : Action} (opened : s.Open) (h : s.step act = some t) : t.Open := by
  intro id job' after
  cases (step_moves h).affects after with
  | nothing found => exact opened id job' found
  | evicted _ found => exact opened id job' found
  | requested _ new =>
      subst new
      exact Job.open_new _ _ _
  | evolved found evolved => exact (opened id _ found).evolves evolved

theorem step_fresh {act : Action} (h : s.step act = some t) (absent : s.future id i = none)
    (here : t.future id i = some a) : a = { dispatch := a.dispatch, world := a.world } := by
  obtain ⟨job', after, here⟩ := future_eq_some.mp here
  have before : ∀ job, s.job id = some job → job.applies[i]? = none := by
    intro job found
    rwa [future, found, Option.bind_some] at absent
  cases (step_moves h).affects after with
  | nothing found => cases (before _ found).symm.trans here
  | evicted _ found => cases (before _ found).symm.trans here
  | requested _ new =>
      subst new
      cases here
  | evolved found evolved => exact evolved.fresh (before _ found) here

theorem step_future {act : Action} (opened : s.Open) (h : s.step act = some t)
    (here : s.future id i = some a) :
    t.future id i = some a ∨ ∃ b a', a.own b = some a' ∧ t.future id i = some a' := by
  obtain ⟨job, found, listed⟩ := future_eq_some.mp here
  have lt : i < job.applies.length := (List.getElem?_eq_some_iff.mp listed).1
  by_cases about : id = act.jobId
  swap
  · rw [future, (step_moves h).frame about]
    exact .inl here
  subst about
  cases act with
  | runPlan id' =>
      cases step_moves h with
      | runPlan fresh => cases found.symm.trans fresh
  | job id' act =>
      simp only [step, show s.job id' = some job from found] at h
      obtain ⟨job', moved, rfl⟩ := Option.map_eq_some_iff.mp h
      simp only [Action.jobId, future_setJob]
      rcases Job.step_future (opened id' job found) moved listed with
        alone | ⟨own, a', moved, now⟩ | ⟨result, a', taken, now⟩
      · exact .inl alone
      · exact .inr ⟨.act own, a', moved, now⟩
      · exact .inr ⟨.collect, a', by simp [Apply.own, taken], now⟩
  | append id' k victims =>
      cases step_moves h with
      | @append _ _ _ job' b b' logs found' there appended =>
          obtain rfl := Option.some.inj (found.symm.trans found')
          rw [Action.jobId, future_setJob]
          by_cases same : k = i
          · subst same
            obtain rfl := Option.some.inj (listed.symm.trans there)
            exact .inr ⟨.append, b', by simp [Apply.own, appended], List.getElem?_set_self lt⟩
          · exact .inl ((List.getElem?_set_ne same).trans listed)
  | record id' victims =>
      cases step_moves h with
      | record found' =>
          obtain rfl := Option.some.inj (found.symm.trans found')
          exact .inl ((future_setJob _ _).trans listed)
  | poll id' =>
      cases step_moves h with
      | answer found' | panic found' =>
          obtain rfl := Option.some.inj (found.symm.trans found')
          exact .inl ((future_setJob _ _).trans listed)
  | status id' =>
      cases h
      exact .inl here

/-- Nothing that has become of the rest of the system keeps a future from its next step. -/
theorem step_free {b : Apply.Own} (opened : s.Open) (here : s.future id i = some a)
    (moved : a.own b = some a') : ∃ t, s.step (Action.of id i b) = some t ∧
      t.future id i = some a' := by
  obtain ⟨job, found, here⟩ := future_eq_some.mp here
  have now : ∀ u : System, ∃ t, some (u.setJob id { job with applies := job.applies.set i a' }) =
      some t ∧ t.future id i = some a' := by
    refine fun u => ⟨_, rfl, ?_⟩
    rw [future_setJob]
    simp [(List.getElem?_eq_some_iff.mp here).1]
  cases b with
  | act act =>
      change a.step act = some a' at moved
      simp only [step, Action.of, found, Job.step, here, moved, Option.map_some]
      exact now s
  | append =>
      obtain ⟨⟨logs, _⟩, appended, rfl⟩ := Option.map_eq_some_iff.mp moved
      simp only [step, Action.of, found, here, appended, Option.map_some]
      exact now _
  | collect =>
      obtain ⟨⟨result, _⟩, taken, rfl⟩ := Option.map_eq_some_iff.mp moved
      have running : a.stage ≠ .collected := by
        rw [(Apply.collect_eq_some taken).1]
        simp
      have draining := (opened id job found).draining a (List.mem_of_getElem? here) running
      simp only [step, Action.of, found, Job.step, draining, ↓reduceIte, here, taken,
        Option.map_some]
      refine ⟨_, rfl, ?_⟩
      rw [future_setJob]
      simp [(List.getElem?_eq_some_iff.mp here).1]

/-- A future is a part of the controller that is isolated from the rest. -/
theorem isolated (id : String) (i : Nat) :
    Isolated step Open (future id i) Apply.own (Action.of id i)
      (fun a => a = { dispatch := a.dispatch, world := a.world }) fun _ => True where
  kept := Open.step
  appears := fun _ h absent here => step_fresh h absent here
  moves := step_future
  free := fun opened here _ moved => step_free opened here moved

theorem open_start : start.Open := by
  intro id job found
  cases found

end System

end There
