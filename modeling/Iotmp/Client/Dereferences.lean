/-
The `resource` pointers that coroutines keep while they are suspended (`client.hpp`), and what is erased meanwhile.

- `Holders`: the client; how many entries of `resources_` have been erased under each path, which tells the entries
  that a path has had apart; for every session the pointer of the handler that answers its START_STREAM; the RUN and
  DESCRIBE requests in `resource_pool_`.
- `step`: the operations of `TableOp`, where a RUN or a DESCRIBE goes to the pool, and the pool: a job begins, it ends,
  and the coroutine that waits for it sends the response. `pool_at_once`: without anything in between this is what
  `handle_message` does.
- `Live`: the entry that a pointer was taken from is still in its map. `Dereferences`: every pointer that the step
  follows is live, in `handle_resource_request`, in the pool, in the answer to a START_STREAM, and in
  `stream_interval_loop`.
- `Careful`: an `erase_resource` comes when no stream points to the resource; an OK to a START_STREAM, and a step of a
  job, come when the path of the resource has not been erased since the request was handled.
- `dereferences_valid_iff`: in every state of a run the pointers in `streams_` are valid, and no step dereferences a
  removed resource, if and only if every step is careful.
Counterexample: `erased_in_use`, a stream, a START_STREAM that is stopped before its answer, and a RUN.
-/
import Mathlib.Tactic
import Iotmp.Client.References

namespace Iotmp.Client

/-! ## The resource pool -/

/-- the resource a RUN or a DESCRIBE goes to, and the request it is run with -/
def toPool (c : Client) (m : IotmpMessage) : Option (ResourceRef × IotmpMessage) :=
  if m.messageType = .run ∨ m.messageType = .describe then
    match c.resolve m with
    | .returns (some ref, request) => some (ref, request)
    | _ => none
  else none

theorem toPool_eq_some {c : Client} {m request : IotmpMessage} {ref : ResourceRef}
    (h : c.toPool m = some (ref, request)) :
    (m.messageType = .run ∨ m.messageType = .describe) ∧ c.resolve m = .returns (some ref, request) := by
  unfold toPool at h
  split_ifs at h with htype
  split at h
  · rename_i hr
    obtain ⟨rfl, rfl⟩ := Prod.mk.inj (Option.some.inj h)
    exact ⟨htype, hr⟩
  · exact absurd h (by simp)

/-- what runs in the pool, and the response it leads to -/
def poolResponse (resource : Resource) (request : IotmpMessage) : Call IotmpMessage :=
  if request.messageType = .describe then resource.describe (.withStreamId request.getStreamId .ok)
  else
    match resource.runResource request (.withStreamId request.getStreamId .ok) with
    | .throws => .throws
    | .returns ran => .returns (ran.response.setMessageType (if ran.success then .ok else .error))

/-- a pointer that is kept: which entry under its path it was taken from -/
structure Kept where
  node : ℕ
  /-- whether `erase_resource` has been called for the path since -/
  erased : Bool := false

/-- `erase_resource` of a path, as the keeper of a pointer to `ref` sees it -/
def Kept.erase (kept : Kept) (ref : ResourceRef) (path : Bytes) : Kept :=
  if ref = .resource path then { kept with erased := true } else kept

inductive JobPhase where
  | queued
  /-- in `run_resource` or `describe` -/
  | running
  | ran (response : Call IotmpMessage)
  | done

structure Job where
  ref : ResourceRef
  kept : Kept
  request : IotmpMessage
  phase : JobPhase := .queued

def Job.begins (job : Job) : Job :=
  match job.phase with
  | .queued => { job with phase := .running }
  | _ => job

/-- `resource`: what the pointer of the job leads to -/
def Job.ends (job : Job) (resource : Option Resource) : Job :=
  match job.phase with
  | .running =>
    match resource with
    -- a dangling pointer
    | none => { job with phase := .ran .throws }
    | some resource => { job with phase := .ran (poolResponse resource job.request) }
  | _ => job

structure Holders where
  client : Client
  /-- how many entries of `resources_` have been erased under the path -/
  erasures : Bytes → ℕ := fun _ => 0
  /-- by session: the pointer that the handler of its START_STREAM captured -/
  answers : ℕ → Kept := fun _ => { node := 0 }
  jobs : List Job := []

namespace Holders

/-! ## The operations -/

/-- which entry under its path a pointer leads to now -/
def nodeOf (s : Holders) : ResourceRef → ℕ
  | .resource path => s.erasures path
  | .event _ => 0

/-- what a kept pointer leads to: nothing, once its entry has been erased -/
def follow (s : Holders) (ref : ResourceRef) (kept : Kept) : Option Resource :=
  if s.nodeOf ref = kept.node then s.client.deref ref else none

/-- the client goes on, and new sessions keep the pointer of their START_STREAM -/
def advance (s : Holders) (c : Client) : Holders :=
  { s with
    client := c
    answers := fun i =>
      if i < s.client.objects.length then s.answers i
      else
        match c.objects[i]? with
        | some o => { node := s.nodeOf o.resource }
        | none => s.answers i }

def newJob (s : Holders) (ref : ResourceRef) (request : IotmpMessage) : Job :=
  { ref, kept := { node := s.nodeOf ref }, request }

/-- `handle_message` up to its first suspension -/
def message (s : Holders) (m : IotmpMessage) (code : SessionCode) : Holders :=
  match s.client.toPool m with
  | some (ref, request) => { s with jobs := s.jobs ++ [s.newJob ref request] }
  | none => s.advance (s.client.handleMessage m code).1

def eraseResource (s : Holders) (path : Bytes) : Holders where
  client := s.client.eraseResource path
  erasures :=
    if (s.client.resources.get path).isSome then Function.update s.erasures path (s.erasures path + 1)
    else s.erasures
  answers i :=
    match s.client.objects[i]? with
    | some o => (s.answers i).erase o.resource path
    | none => s.answers i
  jobs := s.jobs.map fun job => { job with kept := job.kept.erase job.ref path }

/-- the coroutine after its `co_await` on the pool -/
def resume (s : Holders) (i : ℕ) : Holders :=
  match s.jobs[i]?.map Job.phase with
  | some (.ran response) =>
    { s with
      jobs := s.jobs.modify i fun job => { job with phase := .done }
      client :=
        match response with
        | .throws => s.client
        | .returns m => (s.client.sendMessage m).1 }
  | _ => s

inductive HolderOp where
  | table (op : TableOp)
  | poolBegin (i : ℕ)
  | poolEnd (i : ℕ)
  | resume (i : ℕ)

def step (s : Holders) : HolderOp → Holders
  | .table (.erase path) => s.eraseResource path
  | .table (.message m code) => s.message m code
  | .table op => s.advance (tableStep s.client op)
  | .poolBegin i => { s with jobs := s.jobs.modify i Job.begins }
  | .poolEnd i => { s with jobs := s.jobs.modify i fun job => job.ends (s.follow job.ref job.kept) }
  | .resume i => s.resume i

abbrev run (s : Holders) (ops : List HolderOp) : Holders := Run.run step s ops

/-! ## What a step dereferences -/

/-- the entry the pointer was taken from is in its map -/
def Live (s : Holders) (ref : ResourceRef) (kept : Kept) : Prop := (s.follow ref kept).isSome

instance (s : Holders) (ref : ResourceRef) (kept : Kept) : Decidable (s.Live ref kept) :=
  inferInstanceAs (Decidable ((s.follow ref kept).isSome = true))

/-- `session->start()` of session `i` is answered with OK, and the answer is sent -/
def AnswersOk (s : Holders) (i : ℕ) (o : Session) (result : ExecResult) : Prop :=
  s.client.IsStarting i ∧ s.client.objects[i]? = some o ∧ result.isOk = true ∧
    (result.message.setStreamId o.streamId).Logs s.client.logging

/-- `handle_resource_request` of the message finds a registered resource, if any -/
def Finds (s : Holders) (m : IotmpMessage) : Prop :=
  ∀ ref request, s.client.resolve m = .returns (some ref, request) → (s.client.deref ref).isSome

/-- **Every resource that a step dereferences is registered**, under the entry that its pointer was taken from. -/
def Dereferences (s : Holders) : HolderOp → Prop
  | .table (.message m _) => s.Finds m
  | .table (.session (.start request _)) => s.Finds (request.setMessageType .startStream)
  | .table (.session (.stop request _)) => s.Finds (request.setMessageType .stopStream)
  | .table (.session (.finish i (.returns result))) =>
    ∀ o, s.AnswersOk i o result → s.Live o.resource (s.answers i)
  | .table (.interval due) =>
    s.client.connected = true → ∀ before streamId config after ref,
      s.client.streams.entries = before ++ (streamId, config) :: after → config.resource = some ref →
        ((streamInterval due before s.client).1.deref ref).isSome
  | .poolBegin i => ∀ job ∈ s.jobs[i]?, job.phase = .queued → s.Live job.ref job.kept
  | .poolEnd i => ∀ job ∈ s.jobs[i]?, job.phase = .running → s.Live job.ref job.kept
  | _ => True

/-- an erased resource has no stream, and no pointer to it is used that was taken before -/
def Careful (s : Holders) : HolderOp → Prop
  | .table (.erase path) => s.client.Unreferenced (.erase path)
  | .table (.session (.finish i (.returns result))) =>
    ∀ o, s.AnswersOk i o result → (s.answers i).erased = false
  | .poolBegin i => ∀ job ∈ s.jobs[i]?, job.phase = .queued → job.kept.erased = false
  | .poolEnd i => ∀ job ∈ s.jobs[i]?, job.phase = .running → job.kept.erased = false
  | _ => True

/-! ## The pool without anything in between -/

theorem handleResource_pool (c : Client) (ref : ResourceRef) (resource : Resource) {request : IotmpMessage}
    (code : SessionCode) (h : request.messageType = .run ∨ request.messageType = .describe) :
    (c.handleResource ref resource request code).1 =
      match poolResponse resource request with
      | .throws => c
      | .returns m => (c.sendMessage m).1 := by
  rcases h with h | h
  · have hne : request.messageType ≠ .describe := by simp [h]
    simp only [handleResource, h, handleRun, poolResponse, reduceCtorEq, if_false]
    rcases resource.runResource request (.withStreamId request.getStreamId .ok) with ran | _
    · rfl
    · rfl
  · simp only [handleResource, h, handleDescribe, poolResponse, if_true]
    rcases resource.describe (.withStreamId request.getStreamId .ok) with response | _
    · rfl
    · rfl

/-- **A job that is not interrupted** is what `handle_message` does. -/
theorem pool_at_once (s : Holders) {m request : IotmpMessage} {ref : ResourceRef} {resource : Resource}
    (code : SessionCode) (hpool : s.client.toPool m = some (ref, request)) (hd : s.client.deref ref = some resource) :
    (s.run [.table (.message m code), .poolBegin s.jobs.length, .poolEnd s.jobs.length,
      .resume s.jobs.length]).client = (s.client.handleMessage m code).1 := by
  obtain ⟨htype, hr⟩ := toPool_eq_some hpool
  have htype' : request.messageType = .run ∨ request.messageType = .describe := by rwa [(resolve_kept hr).1]
  have hmessage : (s.client.handleMessage m code).1 = (s.client.handleResource ref resource request code).1 := by
    rcases htype with htype | htype
    · simp only [handleMessage, htype, handleResourceRequest, hr, hd]
    · simp only [handleMessage, htype, handleResourceRequest, hr, hd]
  rw [hmessage, handleResource_pool s.client ref resource code htype']
  have hlast : ∀ (job : Job) (f : Job → Job), (s.jobs ++ [job]).modify s.jobs.length f = s.jobs ++ [f job] := by
    intro job f
    rw [List.modify_eq_take_cons_drop (by simp)]
    simp
  have hdispatch : step s (.table (.message m code)) = { s with jobs := s.jobs ++ [s.newJob ref request] } := by
    simp only [step, message, hpool]
  have hbegin : step { s with jobs := s.jobs ++ [s.newJob ref request] } (.poolBegin s.jobs.length) =
      { s with jobs := s.jobs ++ [{ s.newJob ref request with phase := .running }] } := by
    simp only [step, hlast, Job.begins, newJob]
  have hend : step { s with jobs := s.jobs ++ [{ s.newJob ref request with phase := .running }] }
      (.poolEnd s.jobs.length) =
        { s with jobs := s.jobs ++ [{ s.newJob ref request with phase := .ran (poolResponse resource request) }] } := by
    have hfollow : ∀ jobs, follow { s with jobs := jobs } ref { node := s.nodeOf ref } = some resource :=
      fun _ => (if_pos rfl).trans hd
    simp only [step, hlast, Job.ends, newJob, hfollow]
  rw [run, Run.run_cons, hdispatch, Run.run_cons, hbegin, Run.run_cons, hend, Run.run_cons, Run.run_nil]
  simp [step, resume]

/-! ## Steps that remove no resource -/

end Holders

/-- resources and sessions stay, and a new session has a resource that is registered -/
structure Grows (c c' : Client) : Prop where
  deref : ∀ ref, (c.deref ref).isSome → (c'.deref ref).isSome
  old : ∀ i, i < c.objects.length →
    (c'.objects[i]?).map Session.resource = (c.objects[i]?).map Session.resource
  new : ∀ i o, c.objects.length ≤ i → c'.objects[i]? = some o → (c'.deref o.resource).isSome

theorem Grows.of_objects {c c' : Client} (hderef : ∀ ref, (c.deref ref).isSome → (c'.deref ref).isSome)
    (hobjects : c'.objects.map Session.resource = c.objects.map Session.resource) : Grows c c' where
  deref := hderef
  old i _ := by rw [← List.getElem?_map, ← List.getElem?_map, hobjects]
  new i o hi ho := by
    have hlength : c'.objects.length = c.objects.length := by simpa using congrArg List.length hobjects
    rw [List.getElem?_eq_none (by omega)] at ho
    exact absurd ho (by simp)

theorem SameTables.grows {c c' : Client} (h : SameTables c c') : Grows c c' := by
  refine Grows.of_objects (fun ref href => ?_) (by rw [h.objects])
  rw [isSome_deref_congr h.handlerOf]
  exact href

theorem Grows.trans {c c' c'' : Client} (h : Grows c c') (h' : Grows c' c'') : Grows c c'' := by
  have hlt : ∀ i, i < c.objects.length → i < c'.objects.length := by
    intro i hi
    have hold := h.old i hi
    rw [List.getElem?_eq_getElem hi] at hold
    obtain ⟨o, ho, -⟩ := Option.map_eq_some_iff.1 hold
    exact (List.getElem?_eq_some_iff.1 ho).1
  refine ⟨fun ref href => h'.deref ref (h.deref ref href), fun i hi => ?_, fun i o hi ho => ?_⟩
  · rw [h'.old i (hlt i hi), h.old i hi]
  · by_cases hi' : i < c'.objects.length
    · have hold := h'.old i hi'
      rw [ho, List.getElem?_eq_getElem hi'] at hold
      rw [Option.some.inj hold]
      exact h'.deref _ (h.new i _ hi (List.getElem?_eq_getElem hi'))
    · exact h'.new i o (Nat.not_lt.1 hi') ho

/-- a session that changes keeps its resource -/
theorem grows_modifySession (c : Client) (i : ℕ) {f : Session → Session} (hf : ∀ o, (f o).resource = o.resource) :
    Grows c (c.modifySession i f) := by
  refine Grows.of_objects (fun ref href => href) ?_
  apply List.ext_getElem?
  intro j
  simp only [modifySession, List.getElem?_map, List.getElem?_modify]
  rcases c.objects[j]? with _ | o
  · rfl
  · by_cases hij : i = j
    · simp [hij, hf o]
    · simp [hij]

theorem grows_registerSession (c : Client) (i : ℕ) (o : Session) : Grows c (c.registerSession i o) := by
  obtain ⟨sessions, heq⟩ := registerSession_eq c i o
  have hmodify := grows_modifySession c i (f := fun o => { o with phase := .started, onEnd := true }) fun _ => rfl
  rw [heq]
  exact ⟨hmodify.deref, hmodify.old, hmodify.new⟩

theorem grows_entryStopped (c : Client) (m : ManagerId) (streamId : UInt16) (i : ℕ) (stop : Call Unit) :
    Grows c (c.entryStopped m streamId i stop) := by
  have hset : Grows c (c.setSession m streamId none) := Grows.of_objects (fun ref href => href) rfl
  unfold entryStopped
  split
  · exact hset.trans (grows_modifySession _ i fun _ => rfl)
  · exact hset

theorem grows_step (c : Client) (op : SessionOp) : Grows c (step c op) := by
  cases op with
  | start request create =>
    rcases ht : c.target (request.setMessageType .startStream) with _ | ⟨ref, r⟩
    · exact (start_same c request create ht).grows
    · obtain ⟨-, -, hd⟩ := target_eq_some.1 ht
      obtain ⟨config, -, hsame | ⟨m, -, -, -, hsame⟩⟩ := start_cases c request create ht
      · have hset : Grows c (c.setStream request.getStreamId config) := Grows.of_objects (fun _ href => href) rfl
        exact hset.trans hsame.grows
      · have hopened : Grows c { c.setStream request.getStreamId config with
            objects := c.objects ++ [{ streamId := request.getStreamId, manager := m, resource := ref }] } := by
          refine ⟨fun _ href => href, fun i hi => ?_, fun i o hi ho => ?_⟩
          · exact congrArg (Option.map Session.resource) (List.getElem?_append_left hi)
          · have hlast : i = c.objects.length := by
              have hlt := (List.getElem?_eq_some_iff.1 ho).1
              simp only [List.length_append, List.length_singleton] at hlt
              omega
            rw [hlast] at ho
            simp only [List.getElem?_concat_length, Option.some.injEq] at ho
            rw [← ho]
            exact Option.isSome_iff_exists.2 ⟨r, hd⟩
        exact hopened.trans hsame.grows
  | stop request stop =>
    have herase : Grows c (c.eraseStream request.getStreamId) := Grows.of_objects (fun _ href => href) rfl
    rcases ht : c.target (request.setMessageType .stopStream) with _ | ⟨ref, r⟩
    · exact (stop_same c request stop ht).grows
    · obtain ⟨-, hsame⟩ | ⟨m, i, -, -, hsame⟩ := stop_cases c request stop ht
      · exact herase.trans hsame.grows
      · exact herase.trans ((grows_entryStopped _ m request.getStreamId i stop).trans hsame.grows)
  | finish i outcome =>
    rw [step]
    split_ifs with hstarting
    · obtain ⟨o, ho, -⟩ := hstarting
      rcases finish_cases c i o outcome ho with hsame | hsame
      · exact (grows_modifySession c i (f := fun o => { o with phase := .failed }) fun _ => rfl).trans hsame.grows
      · exact (grows_registerSession c i o).trans hsame.grows
    · exact (SameTables.refl c).grows
  | release i =>
    rw [step]
    split_ifs with hend
    · obtain ⟨o, ho, -⟩ := hend
      have hdead := grows_modifySession c i (f := fun o => { o with alive := false }) fun _ => rfl
      obtain ⟨-, hsame⟩ | ⟨j, -, -, hsame⟩ := endSession_cases c i o ho
      · exact hdead.trans hsame.grows
      · exact hdead.trans ((grows_entryStopped _ o.manager o.streamId j (.returns ())).trans hsame.grows)
    · exact (SameTables.refl c).grows

theorem grows_message (c : Client) (m : IotmpMessage) (code : SessionCode) : Grows c (c.handleMessage m code).1 := by
  by_cases hstart : m.messageType = .startStream
  · rw [handleMessage_start c code hstart]
    exact grows_step c _
  · by_cases hstop : m.messageType = .stopStream
    · rw [handleMessage_stop c code hstop]
      exact grows_step c _
    · exact (handleMessage_same c m code hstart hstop).grows

theorem grows_initializeStream (c : Client) (eventId : UInt8) (streamId : UInt16) (responseData : Json) :
    Grows c (c.initializeStream eventId streamId responseData).1 := by
  unfold initializeStream
  split
  · exact (SameTables.refl c).grows
  · have hset : Grows c (c.setStream streamId { resource := some (.event eventId) }) :=
      Grows.of_objects (fun _ href => href) rfl
    have hopen := hset.trans (setResourceStreamId_same _ (.event eventId) streamId).grows
    simp only
    split_ifs
    · exact hopen
    · split
      · exact hopen
      · exact hopen

/-- **Nothing but `erase_resource` removes a resource.** -/
theorem grows_tableStep (c : Client) (op : TableOp) (h : ∀ path, op ≠ .erase path) : Grows c (tableStep c op) := by
  cases op with
  | register path configure =>
    refine Grows.of_objects (fun ref href => ?_) rfl
    cases ref with
    | resource path' => exact isSome_get_set _ _ _ _ href
    | event eventId => exact href
  | erase path => exact absurd rfl (h path)
  | subscribe configure =>
    refine Grows.of_objects (fun ref href => ?_) rfl
    cases ref with
    | resource path => exact href
    | event eventId => exact isSome_get_set _ _ _ _ href
  | subscribed eventId streamId responseData => exact grows_initializeStream c eventId streamId responseData
  | message m code => exact grows_message c m code
  | session op => exact grows_step c op
  | interval due =>
    exact (streamIntervalRound_sends (p := fun _ => True) c due fun _ _ _ _ _ _ => trivial).same.grows
  | connection up => exact Grows.of_objects (fun _ href => href) rfl

namespace Holders

/-! ## What is known of a kept pointer -/

/-- the pointer is live until its path is erased, and after that its entry is one of those erased -/
def Known (s : Holders) (ref : ResourceRef) (kept : Kept) : Prop :=
  (kept.erased = false → s.Live ref kept) ∧
    (kept.erased = true → ∃ path, ref = .resource path ∧ kept.node < s.erasures path)

theorem live_iff {s : Holders} {ref : ResourceRef} {kept : Kept} :
    s.Live ref kept ↔ s.nodeOf ref = kept.node ∧ (s.client.deref ref).isSome := by
  rw [Live, follow]
  split_ifs with hnode
  · simp [hnode]
  · simp [hnode]

theorem Known.live_iff {s : Holders} {ref : ResourceRef} {kept : Kept} (h : s.Known ref kept) :
    s.Live ref kept ↔ kept.erased = false := by
  refine ⟨fun hlive => ?_, h.1⟩
  by_contra herased
  obtain ⟨path, rfl, hlt⟩ := h.2 (by simpa using herased)
  have hnode : s.erasures path = kept.node := (Holders.live_iff.1 hlive).1
  omega

/-- a pointer that is taken now -/
theorem Known.fresh {s : Holders} {ref : ResourceRef} (h : (s.client.deref ref).isSome) :
    s.Known ref { node := s.nodeOf ref } :=
  ⟨fun _ => Holders.live_iff.2 ⟨rfl, h⟩, fun herased => absurd herased (by simp)⟩

/-- no resource is removed -/
theorem Known.mono {s s' : Holders} {ref : ResourceRef} {kept : Kept} (h : s.Known ref kept)
    (hderef : (s.client.deref ref).isSome → (s'.client.deref ref).isSome) (herasures : s'.erasures = s.erasures) :
    s'.Known ref kept := by
  have hnode : s'.nodeOf ref = s.nodeOf ref := by
    cases ref with
    | resource path => exact congrFun herasures path
    | event eventId => rfl
  refine ⟨fun hlive => ?_, fun herased => ?_⟩
  · obtain ⟨hold, hsome⟩ := Holders.live_iff.1 (h.1 hlive)
    exact Holders.live_iff.2 ⟨hnode.trans hold, hderef hsome⟩
  · rw [herasures]
    exact h.2 herased

/-- **`erase_resource`**: a pointer to the path is to an erased entry from now on, and the others stay as they are -/
theorem Known.eraseResource {s : Holders} {ref : ResourceRef} {kept : Kept} (h : s.Known ref kept) (path : Bytes) :
    (s.eraseResource path).Known ref (kept.erase ref path) := by
  by_cases hpath : ref = .resource path
  · rw [Kept.erase, if_pos hpath]
    refine ⟨fun herased => absurd herased (by simp), fun _ => ⟨path, hpath, ?_⟩⟩
    have hlt : kept.erased = true → kept.node < s.erasures path := by
      intro herased
      obtain ⟨path', hpath', hlt⟩ := h.2 herased
      obtain rfl : path = path' := by simpa [hpath] using hpath'
      exact hlt
    simp only [Holders.eraseResource]
    rcases herased : kept.erased with _ | _
    · -- the entry is there, so this call erases it
      obtain ⟨hnode, hsome⟩ := Holders.live_iff.1 (h.1 herased)
      rw [hpath] at hnode hsome
      have hnode' : s.erasures path = kept.node := hnode
      have hthere : (s.client.resources.get path).isSome = true := hsome
      rw [if_pos hthere, Function.update_self]
      omega
    · have hlt' := hlt herased
      split_ifs
      · rw [Function.update_self]
        omega
      · exact hlt'
  · rw [Kept.erase, if_neg hpath]
    have hnode : (s.eraseResource path).nodeOf ref = s.nodeOf ref := by
      cases ref with
      | resource path' =>
        have hne : path' ≠ path := fun heq => hpath (heq ▸ rfl)
        simp only [nodeOf, Holders.eraseResource]
        split_ifs
        · exact Function.update_of_ne hne _ _
        · rfl
      | event eventId => rfl
    have hderef : (s.eraseResource path).client.deref ref = s.client.deref ref := by
      cases ref with
      | resource path' =>
        have hne : path' ≠ path := fun heq => hpath (heq ▸ rfl)
        simp [Holders.eraseResource, Client.eraseResource, deref, SortedMap.get_remove, hne]
      | event eventId => rfl
    refine ⟨fun herased => ?_, fun herased => ?_⟩
    · rw [Holders.live_iff, hnode, hderef, ← Holders.live_iff]
      exact h.1 herased
    · obtain ⟨path', rfl, hlt⟩ := h.2 herased
      have hnode' : (s.eraseResource path).erasures path' = s.erasures path' := hnode
      exact ⟨path', rfl, hnode'.symm ▸ hlt⟩

/-! ## What is known in every run -/

structure Inv (s : Holders) : Prop where
  answers : ∀ i o, s.client.objects[i]? = some o → s.Known o.resource (s.answers i)
  jobs : ∀ job ∈ s.jobs, s.Known job.ref job.kept

theorem Inv.advance {s : Holders} (h : s.Inv) {c : Client} (hgrows : Grows s.client c) : (s.advance c).Inv where
  answers i o ho := by
    have hsome : c.objects[i]? = some o := ho
    simp only [Holders.advance]
    split_ifs with hi
    · -- an old session keeps its resource
      have hold := hgrows.old i hi
      rw [hsome, List.getElem?_eq_getElem hi] at hold
      have hknown := h.answers i _ (List.getElem?_eq_getElem hi)
      rw [Option.some.inj hold]
      exact hknown.mono (hgrows.deref _) rfl
    · rw [hsome]
      exact Known.fresh (s := s.advance c) (hgrows.new i o (Nat.not_lt.1 hi) hsome)
  jobs job hjob := (h.jobs job hjob).mono (hgrows.deref _) rfl

theorem isSome_deref_toPool {c : Client} {m request : IotmpMessage} {ref : ResourceRef}
    (h : c.toPool m = some (ref, request)) : (c.deref ref).isSome := by
  obtain ⟨htype, hr⟩ := toPool_eq_some h
  rcases resolve_from hr with ⟨hstream, -⟩ | hsome
  · -- neither type is looked up in `streams_`
    rcases htype with htype | htype
    · exact absurd hstream (by simp [htype])
    · exact absurd hstream (by simp [htype])
  · exact hsome

theorem Inv.message {s : Holders} (h : s.Inv) (m : IotmpMessage) (code : SessionCode) : (s.message m code).Inv := by
  rw [Holders.message]
  split
  · rename_i ref request hpool
    have hsome := isSome_deref_toPool hpool
    refine ⟨fun i o ho => (h.answers i o ho).mono id rfl, fun job hjob => ?_⟩
    rcases List.mem_append.1 hjob with hjob | hjob
    · exact (h.jobs job hjob).mono id rfl
    · rw [List.mem_singleton.1 hjob]
      exact Known.mono (s := s) (Known.fresh hsome) id rfl
  · exact h.advance (grows_message _ m code)

theorem Inv.eraseResource {s : Holders} (h : s.Inv) (path : Bytes) : (s.eraseResource path).Inv where
  answers i o ho := by
    have hsome : s.client.objects[i]? = some o := ho
    have hanswer : (s.eraseResource path).answers i = (s.answers i).erase o.resource path := by
      simp [Holders.eraseResource, hsome]
    rw [hanswer]
    exact (h.answers i o hsome).eraseResource path
  jobs job hjob := by
    obtain ⟨job', hjob', rfl⟩ := List.mem_map.1 hjob
    exact (h.jobs job' hjob').eraseResource path

/-- a job goes on with its pointer -/
theorem Inv.modifyJob {s : Holders} (h : s.Inv) (i : ℕ) {f : Job → Job}
    (hf : ∀ job, (f job).ref = job.ref ∧ (f job).kept = job.kept) : ({ s with jobs := s.jobs.modify i f } : Holders).Inv
    where
  answers j o ho := (h.answers j o ho).mono id rfl
  jobs job hjob := by
    obtain ⟨j, hj⟩ := List.mem_iff_getElem?.1 hjob
    rw [List.getElem?_modify] at hj
    obtain ⟨job', hjob', heq⟩ := Option.map_eq_some_iff.1 hj
    have hknown : Known { s with jobs := s.jobs.modify i f } job'.ref job'.kept :=
      (h.jobs job' (List.mem_of_getElem? hjob')).mono id rfl
    obtain ⟨href, hkept⟩ := hf job'
    split_ifs at heq
    · rw [← heq, href, hkept]
      exact hknown
    · rw [← heq]
      exact hknown

theorem Inv.resume {s : Holders} (h : s.Inv) (i : ℕ) : (s.resume i).Inv := by
  rw [Holders.resume]
  split
  · rename_i response _
    have hdone := h.modifyJob i (f := fun job => { job with phase := .done }) fun _ => ⟨rfl, rfl⟩
    have hderef : ∀ ref, (s.client.deref ref).isSome →
        ((match response with
          | .throws => s.client
          | .returns m => (s.client.sendMessage m).1).deref ref).isSome := by
      intro ref href
      cases response with
      | throws => exact href
      | returns m => exact (sendMessage_same s.client m).grows.deref ref href
    have hobjects : (match response with
          | .throws => s.client
          | .returns m => (s.client.sendMessage m).1).objects = s.client.objects := by
      cases response with
      | throws => rfl
      | returns m => exact (sendMessage_same s.client m).objects
    refine ⟨fun j o ho => ?_, fun job hjob => (hdone.jobs job hjob).mono (hderef _) rfl⟩
    exact (hdone.answers j o (hobjects ▸ ho)).mono (hderef _) rfl
  · exact h

/-- **One operation.** -/
theorem Inv.step {s : Holders} (h : s.Inv) (op : HolderOp) : (step s op).Inv := by
  cases op with
  | table op =>
    cases op with
    | erase path => exact h.eraseResource path
    | message m code => exact h.message m code
    | register path configure => exact h.advance (grows_tableStep _ (.register path configure) (by simp))
    | subscribe configure => exact h.advance (grows_tableStep _ (.subscribe configure) (by simp))
    | subscribed eventId streamId responseData =>
      exact h.advance (grows_tableStep _ (.subscribed eventId streamId responseData) (by simp))
    | session op => exact h.advance (grows_tableStep _ (.session op) (by simp))
    | interval due => exact h.advance (grows_tableStep _ (.interval due) (by simp))
    | connection up => exact h.advance (grows_tableStep _ (.connection up) (by simp))
  | poolBegin i =>
    apply h.modifyJob i
    intro job
    unfold Job.begins
    split
    · exact ⟨rfl, rfl⟩
    · exact ⟨rfl, rfl⟩
  | poolEnd i =>
    apply h.modifyJob i (f := fun job => job.ends (s.follow job.ref job.kept))
    intro job
    unfold Job.ends
    split
    · split
      · exact ⟨rfl, rfl⟩
      · exact ⟨rfl, rfl⟩
    · exact ⟨rfl, rfl⟩
  | resume i => exact h.resume i

/-! ## One step -/

/-- what the stream table, and the pointers that a step follows, promise -/
def Keeps (s : Holders) (op : HolderOp) : Prop := (step s op).client.ReferencesValid ∧ s.Dereferences op

theorem client_message (s : Holders) (m : IotmpMessage) (code : SessionCode) :
    (s.message m code).client = s.client ∨ (s.message m code).client = tableStep s.client (.message m code) := by
  rw [Holders.message]
  split
  · exact .inl rfl
  · exact .inr rfl

theorem client_resume (s : Holders) (i : ℕ) : SameStreams s.client (s.resume i).client := by
  rw [Holders.resume]
  split
  · split
    · exact .refl _
    · exact (sendMessage_same _ _).sameStreams
  · exact .refl _

theorem finds_valid {s : Holders} (h : s.client.ReferencesValid) (m : IotmpMessage) : s.Finds m :=
  fun _ _ hr => resolve_valid h hr

/-- **One step** keeps the promise exactly if it is careful. -/
theorem step_iff {s : Holders} (hi : s.Inv) (h : s.client.ReferencesValid) (op : HolderOp) :
    s.Keeps op ↔ s.Careful op := by
  -- where no resource is erased the table stays valid, and the rest is about the pointers followed
  have hkeeps : (step s op).client.ReferencesValid → (s.Dereferences op ↔ s.Careful op) → (s.Keeps op ↔ s.Careful op) :=
    fun hvalid hiff => (and_iff_right hvalid).trans hiff
  cases op with
  | table op =>
    cases op with
    | erase path => exact (and_iff_left trivial).trans (referencesValid_step h (.erase path))
    | message m code =>
      refine hkeeps ?_ (iff_of_true (finds_valid h m) trivial)
      have hclient : (s.message m code).client.ReferencesValid := by
        rcases client_message s m code with heq | heq
        · exact heq ▸ h
        · exact heq ▸ (referencesValid_step h (.message m code)).2 trivial
      exact hclient
    | session op =>
      refine hkeeps ((referencesValid_step h (.session op)).2 trivial) ?_
      cases op with
      | start request create => exact iff_of_true (finds_valid h _) trivial
      | stop request stop => exact iff_of_true (finds_valid h _) trivial
      | finish i outcome =>
        cases outcome with
        | throws => exact Iff.rfl
        | returns result =>
          exact forall_congr' fun o => imp_congr_right fun hok => (hi.answers i o hok.2.1).live_iff
      | release i => exact Iff.rfl
    | interval due =>
      refine hkeeps ((referencesValid_step h (.interval due)).2 trivial) (iff_of_true ?_ trivial)
      intro _ before streamId config after ref hentries href
      exact streamInterval_valid h due hentries href
    | register path configure => exact hkeeps ((referencesValid_step h (.register path configure)).2 trivial) Iff.rfl
    | subscribe configure => exact hkeeps ((referencesValid_step h (.subscribe configure)).2 trivial) Iff.rfl
    | subscribed eventId streamId responseData =>
      exact hkeeps ((referencesValid_step h (.subscribed eventId streamId responseData)).2 trivial) Iff.rfl
    | connection up => exact hkeeps ((referencesValid_step h (.connection up)).2 trivial) Iff.rfl
  | poolBegin i =>
    refine hkeeps h (forall₂_congr fun job hjob => imp_congr_right fun _ => ?_)
    exact (hi.jobs job (List.mem_of_getElem? hjob)).live_iff
  | poolEnd i =>
    refine hkeeps h (forall₂_congr fun job hjob => imp_congr_right fun _ => ?_)
    exact (hi.jobs job (List.mem_of_getElem? hjob)).live_iff
  | resume i => exact hkeeps (h.same (client_resume s i)) Iff.rfl

/-! ## Runs -/

/-- a client that has not connected yet, with nothing in the pool -/
def begin (logging : Bool) : Holders := { client := { connected := false, logging := logging } }

/-- **No removed resource is dereferenced.** In every state of a run the pointers in `streams_` are valid, and every
resource that a step dereferences is registered, if and only if no resource is erased that a stream points to, and no
pointer taken before its path was erased is used after. -/
theorem dereferences_valid_iff (logging : Bool) (ops : List HolderOp) :
    ((∀ ops', ops' <+: ops → (run (begin logging) ops').client.ReferencesValid) ∧
        Run.Steps step Dereferences (begin logging) ops) ↔
      Run.Steps step Careful (begin logging) ops := by
  have hvalid : (begin logging).client.ReferencesValid := by
    intro streamId config ref hget
    exact absurd hget (by simp [begin])
  have hinv : (begin logging).Inv := by
    refine ⟨fun i o ho => ?_, fun job hjob => ?_⟩
    · exact absurd ho (by simp [begin])
    · exact absurd hjob (by simp [begin])
  rw [← @Run.Steps.after_iff _ _ step (fun s => s.client.ReferencesValid) (begin logging) ops hvalid,
    ← Run.Steps.and_iff]
  apply Run.Steps.iff_of_invariant (I := fun s => s.Inv ∧ s.client.ReferencesValid)
  · exact fun s op hs hop => ⟨hs.1.step op, hop.1⟩
  · exact fun s op hs => step_iff hs.1 hs.2 op
  · exact ⟨hinv, hvalid⟩

/-- the requests for resource `a`, under stream id 5 -/
def forA (type : MessageType) : IotmpMessage :=
  IotmpMessage.setField (.withStreamId 5 type) Field.RESOURCE (.string [0x61])

/-- resource `a` with a stream manager -/
def managed (r : Resource) : Resource := { r with streamHandler := some 0 }

/-- **An erased resource in use**: a stream has it; a START_STREAM is answered after a STOP_STREAM and the erasure; a RUN
is in the pool. -/
theorem erased_in_use :
    (¬ ∀ ops', ops' <+: [.table (.register [0x61] id), .table (.message (forA .startStream) {}),
        .table (.erase [0x61])] → (run (begin true) ops').client.ReferencesValid) ∧
      ¬ Run.Steps step Dereferences (begin true) [.table (.register [0x61] managed),
        .table (.message (forA .startStream) {}), .table (.message (forA .stopStream) {}), .table (.erase [0x61]),
        .table (.session (.finish 0 (.returns (.ofBool true))))] ∧
      ¬ Run.Steps step Dereferences (begin true) [.table (.register [0x61] id), .table (.message (forA .run) {}),
        .table (.erase [0x61]), .poolBegin 0] := by
  refine ⟨fun h => ?_, fun h => ?_, fun h => ?_⟩
  · have hvalid := h _ List.prefix_rfl
    have hgone := hvalid 5 { resource := some (.resource [0x61]) } (.resource [0x61]) (by rfl) rfl
    exact absurd hgone (by decide)
  · have hlive := h.2.2.2.2.1 { streamId := 5, manager := 0, resource := .resource [0x61] }
      ⟨by decide, by rfl, by rfl, by decide⟩
    exact absurd hlive (by decide)
  · have hlive := h.2.2.2.1 _ rfl rfl
    exact absurd hlive (by decide)

end Holders

end Iotmp.Client
