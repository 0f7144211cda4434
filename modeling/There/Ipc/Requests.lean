import There.Agent.Loop
import There.Controller.Server
import There.Ipc.Codec

/-!
# The requests that the controller answers

A request names its endpoint by its path. `run_server` routes it there, and the handler
answers it, or panics, so that the connection is closed without an answer. The body of a
request for a job is refused before the handler sees it if it is too long or if it does not
say what to do.

The ids that `nanoid` makes are 21 letters and digits. What `run_plan` cannot know from the
request is given with it: the id, what the world will do to the job, and the entries that
the cache evicts.
-/

namespace There

open Concurrent Json

inductive Method where
  | get
  | post
deriving Repr, DecidableEq

structure HttpRequest where
  method : Method
  path : String
  body : String := ""
deriving Repr, DecidableEq

inductive Endpoint where
  | root
  | bootstrap
  | runPlan
  | status (jobId : String)
deriving Repr, DecidableEq

/-- What stands between the slashes of a path. -/
def segments (path : String) : List String := (path.toList.splitOn '/').map String.ofList

/-- The endpoint of a path, and the method that it wants. -/
def route : List String → Option (Method × Endpoint)
  | ["", ""] => some (.get, .root)
  | ["", "api", "bootstrap"] => some (.get, .bootstrap)
  | ["", "api", "plan", "run"] => some (.post, .runPlan)
  | ["", "api", "plan", jobId, "status"] =>
      if jobId = "" then none else some (.get, .status jobId)
  | _ => none

/-- The endpoint of a request, or the status of the refusal. -/
def HttpRequest.endpoint (r : HttpRequest) : Except Nat Endpoint :=
  match route (segments r.path) with
  | none => .error 404
  | some (method, endpoint) => if r.method = method then .ok endpoint else .error 405

def runPath : String := "/api/plan/run"

def statusPath (jobId : String) : String := "/api/plan/" ++ jobId ++ "/status"

/-- What `nanoid` makes. -/
def IsJobId (id : String) : Prop := id.length = 21 ∧ id.toList.all Char.isAlphanum

instance (id : String) : Decidable (IsJobId id) := inferInstanceAs (Decidable (_ ∧ _))

/-- The most bytes that a body may have. -/
def bodyLimit : Nat := 2097152

def tooLong : String := "Failed to buffer the request body: length limit exceeded"

section Routing

theorem segments_intercalate (parts : List String) (ne : parts ≠ [])
    (plain : ∀ part ∈ parts, '/' ∉ part.toList) :
    segments (String.ofList (['/'].intercalate (parts.map String.toList))) = parts := by
  have plain : ∀ cs ∈ parts.map String.toList, '/' ∉ cs := by
    simpa using plain
  rw [segments, String.toList_ofList, List.splitOn_intercalate '/' plain (by simpa using ne),
    List.map_map]
  simp

theorem endpoint_run (body : String) :
    HttpRequest.endpoint ⟨.post, runPath, body⟩ = .ok .runPlan := by
  have parts : segments runPath = ["", "api", "plan", "run"] := by decide
  rw [HttpRequest.endpoint, parts]
  rfl

/-- The path that the CLI asks for leads to the job, if the id is a segment. -/
theorem endpoint_status {id : String} (ne : id ≠ "") (plain : '/' ∉ id.toList) (body : String) :
    HttpRequest.endpoint ⟨.get, statusPath id, body⟩ = .ok (.status id) := by
  have parts : segments (statusPath id) = ["", "api", "plan", id, "status"] := by
    have path : statusPath id = String.ofList (['/'].intercalate
        (["", "api", "plan", id, "status"].map String.toList)) := by
      apply String.toList_injective
      simp [statusPath, List.intercalate]
    rw [path]
    apply segments_intercalate _ (by simp)
    simp only [List.forall_mem_cons, List.not_mem_nil, false_implies, implies_true, and_true]
    exact ⟨by decide, by decide, by decide, plain, by decide⟩
  rw [HttpRequest.endpoint, parts]
  simp [route, ne]

theorem IsJobId.plain {id : String} (h : IsJobId id) : id ≠ "" ∧ '/' ∉ id.toList := by
  refine ⟨?_, fun slash => ?_⟩
  · rintro rfl
    exact absurd h.1 (by decide)
  · exact absurd (List.all_eq_true.mp h.2 '/' slash) (by decide)

theorem not_isJobId_tooLong : ¬ IsJobId tooLong := by decide

end Routing

/-- What a request for a job does not determine. -/
structure Chance where
  id : String
  world : Nat → World
  victims : List String
  /-- What the bootstrap endpoint would answer. -/
  bootstrap : Option Response

section Handlers

variable (serdeJson : Format 127)

/-- The body of a request for a job, or its refusal. -/
def JobStartRequest.extract (body : String) : Except Response JobStartRequest :=
  if bodyLimit < body.utf8ByteSize then
    .error ⟨413, tooLong⟩
  else
    match serdeJson.parse body with
    | none => .error ⟨400, "Failed to parse the request body as JSON"⟩
    | some v =>
        match deserialize v with
        | none => .error ⟨422, "Failed to deserialize the JSON body into the target type"⟩
        | some request => .ok request

/-- The answer to a request, none if the handler panics, and the state after it. No job
starts under an id that `nanoid` would not make. -/
def System.handle (s : System) (r : HttpRequest) (chance : Chance) :
    Option (System × Option Response) :=
  match r.endpoint with
  | .error status => some (s, some ⟨status, ""⟩)
  | .ok .root => some (s, some ⟨200, "there-controller"⟩)
  | .ok .bootstrap => some (s, chance.bootstrap)
  | .ok .runPlan =>
      match JobStartRequest.extract serdeJson r.body with
      | .error refusal => some (s, some refusal)
      | .ok request =>
          if IsJobId chance.id then
            (s.step (.runPlan chance.id request.plan request.hosts chance.world
              chance.victims)).map fun s' => (s', some ⟨200, chance.id⟩)
          else
            none
  | .ok (.status jobId) =>
      match s.getJobStatus jobId with
      | .ok state => some (s, some ⟨200, serdeJson.print state.serialize⟩)
      | .error _ => some (s, none)

variable {serdeJson}

/-- The request that the CLI sends is refused only for its length. -/
theorem JobStartRequest.extract_json (plan : Plan) (hosts : HostConfig) :
    extract serdeJson (serdeJson.print (json plan hosts)) = .error ⟨413, tooLong⟩ ∨
      ∃ request, extract serdeJson (serdeJson.print (json plan hosts)) = .ok request ∧
        request.plan = plan ∧ request.hosts.SameFile hosts := by
  rw [extract]
  split
  · exact .inl rfl
  · right
    obtain ⟨request, read, meant⟩ := (reads plan hosts).parse_print serdeJson
      (Value.sorted_reorders _) (Nat.le_trans (depth_le plan hosts) (by decide))
    obtain ⟨v, parsed, decoded⟩ := Option.bind_eq_some_iff.mp read
    refine ⟨request, ?_, meant⟩
    rw [json, parsed]
    simp only [decoded]

/-- A request either starts a job or changes nothing. -/
theorem System.handle_cases {s s' : System} {r : HttpRequest} {chance : Chance}
    {answer : Option Response} (h : s.handle serdeJson r chance = some (s', answer)) :
    s' = s ∨ ∃ request, JobStartRequest.extract serdeJson r.body = .ok request ∧
      IsJobId chance.id ∧ s.step (.runPlan chance.id request.plan request.hosts chance.world
        chance.victims) = some s' ∧ answer = some ⟨200, chance.id⟩ := by
  rw [handle] at h
  split at h
  · exact .inl (Prod.mk.inj (Option.some.inj h)).1.symm
  · exact .inl (Prod.mk.inj (Option.some.inj h)).1.symm
  · exact .inl (Prod.mk.inj (Option.some.inj h)).1.symm
  · split at h
    · exact .inl (Prod.mk.inj (Option.some.inj h)).1.symm
    · split at h
      · obtain ⟨t, stepped, same⟩ := Option.map_eq_some_iff.mp h
        obtain ⟨rfl, rfl⟩ := Prod.mk.inj same
        exact .inr ⟨_, ‹_›, ‹_›, stepped, rfl⟩
      · cases h
  · split at h <;> exact .inl (Prod.mk.inj (Option.some.inj h)).1.symm

/-- The request for a job is refused, or starts the job that is wanted. -/
theorem System.handle_run {s s' : System} {plan : Plan} {hosts : HostConfig} {chance : Chance}
    {answer : Option Response} (h : s.handle serdeJson
      ⟨.post, runPath, serdeJson.print (JobStartRequest.json plan hosts)⟩ chance =
        some (s', answer)) :
    s' = s ∧ answer = some ⟨413, tooLong⟩ ∨ ∃ hosts', hosts'.SameFile hosts ∧
      IsJobId chance.id ∧ s.step (.runPlan chance.id plan hosts' chance.world chance.victims) =
        some s' ∧ answer = some ⟨200, chance.id⟩ := by
  rw [handle, endpoint_run] at h
  simp only at h
  rcases JobStartRequest.extract_json plan hosts with refused | ⟨request, read, rfl, sameFile⟩
  · rw [refused] at h
    obtain ⟨rfl, rfl⟩ := Prod.mk.inj (Option.some.inj h)
    exact .inl ⟨rfl, rfl⟩
  · rw [read] at h
    simp only at h
    split at h
    · obtain ⟨t, stepped, same⟩ := Option.map_eq_some_iff.mp h
      obtain ⟨rfl, rfl⟩ := Prod.mk.inj same
      exact .inr ⟨request.hosts, sameFile, ‹_›, stepped, rfl⟩
    · cases h

/-- The state of a job is sent as it is stored. A job that is not stored has no answer. -/
theorem System.handle_status {s s' : System} {id body : String} {chance : Chance}
    {answer : Option Response} (ne : id ≠ "") (plain : '/' ∉ id.toList)
    (h : s.handle serdeJson ⟨.get, statusPath id, body⟩ chance = some (s', answer)) :
    s' = s ∧ answer = (s.jobs.get id).map fun state =>
      ⟨200, serdeJson.print state.serialize⟩ := by
  rw [handle, endpoint_status ne plain] at h
  simp only [getJobStatus] at h
  split at h
  · rename_i answered
    split at answered
    · obtain rfl := Except.ok.inj answered
      obtain ⟨rfl, rfl⟩ := Prod.mk.inj (Option.some.inj h)
      exact ⟨rfl, by rw [‹s.jobs.get id = _›]; rfl⟩
    · cases answered
  · rename_i answered
    split at answered
    · cases answered
    · obtain ⟨rfl, rfl⟩ := Prod.mk.inj (Option.some.inj h)
      exact ⟨rfl, by rw [‹s.jobs.get id = _›]; rfl⟩

end Handlers

end There
