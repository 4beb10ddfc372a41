/-
The resource pointers in `streams_` (`client.hpp`), over everything that changes one of the three maps they connect:
registrations, `erase_resource`, event subscriptions, messages, sessions, and reconnections, which clear nothing.

- `registerResource`, `eraseResource`, `eventSubscribe`, `initializeStream`, `streamInterval`: the functions of the
  source that are not part of handling a message.
- `TableOp`, `tableStep`: the operations of a run.
- `SameResources`: what the sessions and the sending leave alone. `stop_resources`: a STOP_STREAM changes what
  `closeStream` changes.
- `referencesValid_step`: an operation keeps every pointer in `streams_` to a registered resource or event if and only
  if it is no `erase_resource` of one that a stream points to.
- `resolve_valid`, `streamInterval_valid`: then neither `handle_resource_request` nor `stream_interval_loop` finds a
  pointer that leads nowhere.
-/
import Mathlib.Tactic
import Iotmp.Client.Sessions

namespace Iotmp.Client

/-! ## The functions -/

/-- `client[path]`, and what the application stores behind the reference it gets -/
def registerResource (c : Client) (path : Bytes) (configure : Resource → Resource) : Client :=
  { c with resources := c.resources.set path (configure ((c.resources.get path).getD {})) }

def eraseResource (c : Client) (path : Bytes) : Client := { c with resources := c.resources.remove path }

/-- `events_.rbegin()->first + 1`, in eight bits -/
def nextEventId (c : Client) : UInt8 :=
  match c.events.entries.getLast? with
  | some (eventId, _) => eventId + 1
  | none => 1

/-- `topic_publish_stream`, `topic_subscribe_stream`, `property_stream` and `event_subscribe`: a server event has no
echo -/
def eventSubscribe (c : Client) (configure : Resource → Resource) : Client :=
  { c with
    events :=
      c.events.set c.nextEventId (configure ((c.events.get c.nextEventId).getD { streamEcho := false })) }

/-- a round of `initialize_streams`, from the server's OK on -/
def initializeStream (c : Client) (eventId : UInt8) (streamId : UInt16) (responseData : Json) : Client × Bool :=
  match c.events.get eventId with
  | none => (c, true)
  | some event =>
    let c := (c.setStream streamId { resource := some (.event eventId) }).setResourceStreamId (.event eventId) streamId
    if Resource.isEmpty responseData then (c, true)
    else
      let req := IotmpMessage.setField { messageType := .run } Field.PAYLOAD responseData
      match event.runResource req { messageType := .ok } with
      | .throws => (c, false)
      | .returns _ => (c, true)

/-- the `for` of `stream_interval_loop`; `due` says for which streams the interval has passed -/
def streamInterval (due : UInt16 → Bool) : List (UInt16 × StreamConfig) → Client → Client × Bool
  | [], c => (c, true)
  | (streamId, config) :: rest, c =>
    match config.resource with
    | none => streamInterval due rest c
    | some ref =>
      if 0 < config.interval ∧ due streamId = true then
        match c.deref ref with
        -- a dangling pointer
        | none => (c, false)
        | some resource =>
          match c.streamResource resource streamId with
          | (c, false) => (c, false)
          | (c, true) => streamInterval due rest c
      else streamInterval due rest c

/-- a round of `stream_interval_loop` -/
def streamIntervalRound (c : Client) (due : UInt16 → Bool) : Client × Bool :=
  if c.connected then streamInterval due c.streams.entries c else (c, true)

/-! ## Operations -/

inductive TableOp where
  | register (path : Bytes) (configure : Resource → Resource)
  | erase (path : Bytes)
  | subscribe (configure : Resource → Resource)
  | subscribed (eventId : UInt8) (streamId : UInt16) (responseData : Json)
  | message (m : IotmpMessage) (code : SessionCode)
  | session (op : SessionOp)
  | interval (due : UInt16 → Bool)
  /-- the connection is up, or lost -/
  | connection (up : Bool)

def tableStep (c : Client) : TableOp → Client
  | .register path configure => c.registerResource path configure
  | .erase path => c.eraseResource path
  | .subscribe configure => c.eventSubscribe configure
  | .subscribed eventId streamId responseData => (c.initializeStream eventId streamId responseData).1
  | .message m code => (c.handleMessage m code).1
  | .session op => step c op
  | .interval due => (c.streamIntervalRound due).1
  | .connection up => { c with connected := up }

/-- every pointer in `streams_` leads to a resource or an event -/
def ReferencesValid (c : Client) : Prop :=
  ∀ streamId config ref, c.streams.get streamId = some config → config.resource = some ref → (c.deref ref).isSome

/-- what is erased is not what a stream points to -/
def Unreferenced (c : Client) : TableOp → Prop
  | .erase path => ∀ streamId config, c.streams.get streamId = some config → config.resource ≠ some (.resource path)
  | _ => True

/-! ## What keeps the pointers valid -/

theorem isSome_deref_congr {c c' : Client} (h : c'.handlerOf = c.handlerOf) (ref : ResourceRef) :
    (c'.deref ref).isSome = (c.deref ref).isSome := by
  have href := congrArg Option.isSome (congrFun h ref)
  simpa [handlerOf] using href

/-- the stream table is the same, and every pointer leads where it led -/
structure SameStreams (c c' : Client) : Prop where
  streams : c'.streams = c.streams
  handlerOf : c'.handlerOf = c.handlerOf

theorem SameStreams.refl (c : Client) : SameStreams c c := ⟨rfl, rfl⟩

theorem SameStreams.trans {c c' c'' : Client} (h : SameStreams c c') (h' : SameStreams c' c'') : SameStreams c c'' :=
  ⟨h'.streams.trans h.streams, h'.handlerOf.trans h.handlerOf⟩

theorem SameTables.sameStreams {c c' : Client} (h : SameTables c c') : SameStreams c c' := ⟨h.streams, h.handlerOf⟩

/-- **A step that adds no pointer** but one that leads somewhere, and loses no resource. -/
theorem ReferencesValid.of_streams {c c' : Client} (h : c.ReferencesValid)
    (hstreams : ∀ streamId config, c'.streams.get streamId = some config →
      c.streams.get streamId = some config ∨ ∃ ref, config.resource = some ref ∧ (c'.deref ref).isSome)
    (hderef : ∀ ref, (c.deref ref).isSome → (c'.deref ref).isSome) : c'.ReferencesValid := by
  intro streamId config ref hget href
  rcases hstreams streamId config hget with hold | ⟨ref', href', hsome⟩
  · exact hderef ref (h streamId config ref hold href)
  · rw [href] at href'
    rw [Option.some.inj href']
    exact hsome

theorem ReferencesValid.same {c c' : Client} (h : c.ReferencesValid) (hsame : SameStreams c c') :
    c'.ReferencesValid := by
  apply h.of_streams
  · intro streamId config hget
    rw [hsame.streams] at hget
    exact .inl hget
  · intro ref href
    rw [isSome_deref_congr hsame.handlerOf]
    exact href

theorem ReferencesValid.eraseStream {c : Client} (h : c.ReferencesValid) (streamId : UInt16) :
    (c.eraseStream streamId).ReferencesValid := by
  apply h.of_streams
  · intro streamId' config hget
    simp only [Client.eraseStream, SortedMap.get_remove] at hget
    split_ifs at hget
    exact .inl hget
  · exact fun _ href => href

theorem ReferencesValid.setStream {c : Client} (h : c.ReferencesValid) (streamId : UInt16) {config : StreamConfig}
    {ref : ResourceRef} (hconfig : config.resource = some ref) (href : (c.deref ref).isSome) :
    (c.setStream streamId config).ReferencesValid := by
  apply h.of_streams
  · intro streamId' config' hget
    simp only [Client.setStream, SortedMap.get_set] at hget
    split_ifs at hget
    · rw [← Option.some.inj hget]
      exact .inr ⟨ref, hconfig, href⟩
    · exact .inl hget
  · exact fun _ href => href

/-! ## Messages that open or close no stream -/

section

variable {p : IotmpMessage → Prop}

theorem handleRun_sends (c : Client) (r : Resource) (request : IotmpMessage)
    (hp : ∀ m : IotmpMessage, m.messageType ≠ .streamData → p m) : OnlySends p c (c.handleRun r request).1 := by
  unfold handleRun
  split
  · exact OnlySends.refl c
  · rename_i ran _
    have htype : (ran.response.setMessageType (if ran.success then .ok else .error)).messageType ≠ .streamData := by
      rw [IotmpMessage.messageType_setMessageType]
      split_ifs
      · simp
      · simp
    exact sendMessage_sends c (hp _ htype)

theorem describe_type {r : Resource} {response response' : IotmpMessage}
    (h : r.describe response = .returns response') : response'.messageType = response.messageType := by
  have hput : ∀ payload, (Resource.putDescription response payload).messageType = response.messageType := by
    intro payload
    unfold Resource.putDescription
    split_ifs
    · rfl
    · rfl
  unfold Resource.describe at h
  split at h
  · split at h
    · exact absurd h (by simp)
    · rw [← Call.returns.inj h]
      exact hput _
  · split at h
    · exact absurd h (by simp)
    · rw [← Call.returns.inj h]
      exact hput _
  · split at h
    · exact absurd h (by simp)
    · rw [← Call.returns.inj h]
      exact hput _
  · rw [← Call.returns.inj h]
  · rw [← Call.returns.inj h]

theorem handleDescribe_sends (c : Client) (r : Resource) (request : IotmpMessage)
    (hp : ∀ m : IotmpMessage, m.messageType ≠ .streamData → p m) : OnlySends p c (c.handleDescribe r request).1 := by
  unfold handleDescribe
  split
  · exact OnlySends.refl c
  · rename_i response hdescribe
    have htype := describe_type hdescribe
    exact sendMessage_sends c (hp _ (by simp [htype]))

theorem handleStreamData_sends (c : Client) (r : Resource) (request : IotmpMessage)
    (hp : ∀ m : IotmpMessage, m.getStreamId = request.getStreamId → p m) :
    OnlySends p c (c.handleStreamData r request).1 := by
  unfold handleStreamData
  split
  · exact OnlySends.refl c
  · split_ifs
    · exact streamResource_sends c r hp
    · exact OnlySends.refl c

theorem streamInterval_sends (due : UInt16 → Bool) (entries : List (UInt16 × StreamConfig)) (c : Client)
    (hp : ∀ e ∈ entries, 0 < e.2.interval → due e.1 = true → ∀ m : IotmpMessage, m.getStreamId = e.1 → p m) :
    OnlySends p c (streamInterval due entries c).1 := by
  induction entries generalizing c with
  | nil => exact OnlySends.refl c
  | cons e entries ih =>
    obtain ⟨he, hentries⟩ := List.forall_mem_cons.1 hp
    rw [streamInterval]
    split
    · exact ih c hentries
    · split_ifs with hdue
      · split
        · exact OnlySends.refl c
        · rename_i resource _
          have hsend := streamResource_sends c resource (he hdue.1 hdue.2)
          split
          · rename_i c' hc
            rw [hc] at hsend
            exact hsend
          · rename_i c' hc
            rw [hc] at hsend
            exact hsend.trans (ih c' hentries)
      · exact ih c hentries

theorem streamIntervalRound_sends (c : Client) (due : UInt16 → Bool)
    (hp : ∀ e ∈ c.streams.entries, 0 < e.2.interval → due e.1 = true →
      ∀ m : IotmpMessage, m.getStreamId = e.1 → p m) :
    OnlySends p c (c.streamIntervalRound due).1 := by
  unfold streamIntervalRound
  split_ifs
  · exact streamInterval_sends due _ c hp
  · exact OnlySends.refl c

end

/-- a message that reaches no resource, or neither opens nor closes a stream -/
theorem handleMessage_onlySends (c : Client) (m : IotmpMessage) (code : SessionCode)
    (h : c.target m = none ∨ m.messageType ≠ .startStream ∧ m.messageType ≠ .stopStream) :
    OnlySends (fun _ => True) c (c.handleMessage m code).1 := by
  have hrequest : OnlySends (fun _ => True) c (c.handleResourceRequest m code).1 := by
    rcases ht : c.target m with _ | ⟨ref, resource⟩
    · exact handleResourceRequest_sends c m code ht
    · obtain ⟨hstart, hstop⟩ := h.resolve_left (by simp [ht])
      obtain ⟨request, hr, hd⟩ := target_eq_some.1 ht
      simp only [handleResourceRequest, hr, hd, handleResource, (resolve_kept hr).1]
      split
      · exact handleRun_sends c _ _ fun _ _ => trivial
      · exact handleDescribe_sends c _ _ fun _ _ => trivial
      · rename_i htype
        exact absurd htype hstart
      · rename_i htype
        exact absurd htype hstop
      · exact handleStreamData_sends c _ _ fun _ _ => trivial
      · exact OnlySends.refl c
  unfold handleMessage
  split
  all_goals first | exact hrequest | exact OnlySends.refl c

theorem handleMessage_same (c : Client) (m : IotmpMessage) (code : SessionCode) (hstart : m.messageType ≠ .startStream)
    (hstop : m.messageType ≠ .stopStream) : SameTables c (c.handleMessage m code).1 :=
  (handleMessage_onlySends c m code (.inr ⟨hstart, hstop⟩)).same

/-- a START_STREAM and a STOP_STREAM are the two requests of `SessionOp` -/
theorem handleMessage_start (c : Client) {m : IotmpMessage} (code : SessionCode) (h : m.messageType = .startStream) :
    (c.handleMessage m code).1 = step c (.start m code.create) := by
  have hm : m.setMessageType .startStream = m := IotmpMessage.setMessageType_of_messageType h
  simp only [step, hm, handleMessage, h, handleResourceRequest]
  rcases hr : c.resolve m with ⟨_ | ref, request⟩ | _
  · rfl
  · rcases hd : c.deref ref with _ | resource
    · simp only [hd]
    · simp only [hd, handleResource, (resolve_kept hr).1, h]
  · rfl

theorem handleMessage_stop (c : Client) {m : IotmpMessage} (code : SessionCode) (h : m.messageType = .stopStream) :
    (c.handleMessage m code).1 = step c (.stop m code.stop) := by
  have hm : m.setMessageType .stopStream = m := IotmpMessage.setMessageType_of_messageType h
  simp only [step, hm, handleMessage, h, handleResourceRequest]
  rcases hr : c.resolve m with ⟨_ | ref, request⟩ | _
  · rfl
  · rcases hd : c.deref ref with _ | resource
    · simp only [hd]
    · simp only [hd, handleResource, (resolve_kept hr).1, h]
  · rfl

/-! ## The pointer a request is dispatched to -/

/-- `get_resource` finds a registered pattern -/
theorem getResource_mem {entries : List (Bytes × Resource)} {path found : Bytes} {matched pathMatches : Json}
    (h : getResource entries path matched = .returns (some found, pathMatches)) : ∃ r, (found, r) ∈ entries := by
  induction entries generalizing matched with
  | nil => exact absurd h (by simp [getResource])
  | cons e entries ih =>
    rw [getResource] at h
    rcases hm : matchesPath e.1 path matched with ⟨_ | _, matched'⟩ | _
    · rw [hm] at h
      obtain ⟨r, hr⟩ := ih h
      exact ⟨r, List.mem_cons_of_mem e hr⟩
    · rw [hm] at h
      obtain ⟨rfl, -⟩ : e.1 = found ∧ matched' = pathMatches := by simpa using h
      exact ⟨e.2, List.mem_cons_self⟩
    · rw [hm] at h
      exact absurd h (by simp)

/-- a pointer that a request is dispatched to comes from the stream table, or from the registered resources -/
theorem resolve_from {c : Client} {request request' : IotmpMessage} {ref : ResourceRef}
    (hr : c.resolve request = .returns (some ref, request')) :
    ((request.messageType = .streamData ∨ request.messageType = .stopStream) ∧
        ∃ config, c.streams.get request.getStreamId = some config ∧ config.resource = some ref) ∨
      (c.deref ref).isSome := by
  unfold resolve at hr
  simp only at hr
  split at hr
  · rename_i ref' hstream
    obtain ⟨rfl, -⟩ : ref' = ref ∧ request = request' := by simpa using hr
    split_ifs at hstream with htype
    obtain ⟨config, hget, hconfig⟩ := Option.bind_eq_some_iff.1 hstream
    exact .inl ⟨htype, config, hget, hconfig⟩
  · split at hr
    · split at hr
      · exact absurd hr (by simp)
      · rename_i found pathMatches hfound
        obtain ⟨hpath, -⟩ := by simpa using hr
        obtain ⟨path, rfl, rfl⟩ := hpath
        obtain ⟨r, hr⟩ := getResource_mem hfound
        exact .inr (Option.isSome_iff_exists.2 ⟨r, (SortedMap.get_eq_some_iff _ _ _).2 hr⟩)
    · exact absurd hr (by simp)

/-- **`handle_resource_request` reaches no removed resource.** -/
theorem resolve_valid {c : Client} (h : c.ReferencesValid) {request request' : IotmpMessage} {ref : ResourceRef}
    (hr : c.resolve request = .returns (some ref, request')) : (c.deref ref).isSome := by
  rcases resolve_from hr with ⟨-, config, hget, hconfig⟩ | hsome
  · exact h _ config ref hget hconfig
  · exact hsome

/-- **`stream_interval_loop` reaches no removed resource.** When the loop comes to an entry, its pointer leads
somewhere. -/
theorem streamInterval_valid {c : Client} (h : c.ReferencesValid) (due : UInt16 → Bool)
    {before after : List (UInt16 × StreamConfig)} {streamId : UInt16} {config : StreamConfig} {ref : ResourceRef}
    (hentries : c.streams.entries = before ++ (streamId, config) :: after) (href : config.resource = some ref) :
    ((streamInterval due before c).1.deref ref).isSome := by
  have hmem : (streamId, config) ∈ c.streams.entries := by
    rw [hentries]
    exact List.mem_append_right before List.mem_cons_self
  rw [isSome_deref_congr (streamInterval_sends (p := fun _ => True) due before c
    fun _ _ _ _ _ _ => trivial).same.handlerOf]
  exact h streamId config ref ((SortedMap.get_eq_some_iff _ _ _).2 hmem) href

/-! ## What an event of the sessions does to the stream table -/

/-- the streams, the resources and the events stay as they are -/
structure SameResources (c c' : Client) : Prop where
  streams : c'.streams = c.streams
  deref : c'.deref = c.deref

theorem SameResources.refl (c : Client) : SameResources c c := ⟨rfl, rfl⟩

theorem SameResources.trans {c c' c'' : Client} (h : SameResources c c') (h' : SameResources c' c'') :
    SameResources c c'' := ⟨h'.streams.trans h.streams, h'.deref.trans h.deref⟩

theorem SameResources.sameStreams {c c' : Client} (h : SameResources c c') : SameStreams c c' := by
  refine ⟨h.streams, ?_⟩
  funext ref
  rw [handlerOf, handlerOf, h.deref]

theorem OnlySends.sameResources {p : IotmpMessage → Prop} {c c' : Client} (h : OnlySends p c c') :
    SameResources c c' := by
  obtain ⟨more, rfl, -⟩ := h
  exact ⟨rfl, rfl⟩

theorem managerStart_resources (c : Client) (m : ManagerId) (streamId : UInt16) (ref : ResourceRef)
    (create : Call Bool) : SameResources c (c.managerStart m streamId ref create).1 := by
  have hanswer : SameResources c (c.answerStart streamId ref (.ofBool false)).1 :=
    (answerStart_sends (p := fun _ => True) c ref (.ofBool false) fun _ _ => trivial).sameResources
  unfold managerStart
  split
  · exact hanswer
  · split
    · exact .refl c
    · exact hanswer
    · exact ⟨rfl, rfl⟩

theorem managerStop_resources (c : Client) (m : ManagerId) (streamId : UInt16) (stop : Call Unit) :
    SameResources c (c.managerStop m streamId stop).1 := by
  unfold managerStop
  split
  · exact .refl c
  · simp only
    split_ifs
    · split
      · exact ⟨rfl, rfl⟩
      · exact ⟨rfl, rfl⟩
    · have hset : SameResources c (c.setSession m streamId none) := ⟨rfl, rfl⟩
      have hstop : SameResources _ ((c.setSession m streamId none).stopStream streamId).1 :=
        (stopStream_sends (p := fun _ => True) _ streamId fun _ _ => trivial).sameResources
      split
      · rename_i hc
        rw [hc] at hstop
        exact hset.trans hstop
      · rename_i hc
        rw [hc] at hstop
        exact hset.trans hstop

/-- **A STOP_STREAM** changes what `closeStream` changes. -/
theorem stop_resources {c : Client} {request : IotmpMessage} (stop : Call Unit) {ref : ResourceRef} {r : Resource}
    (h : c.target (request.setMessageType .stopStream) = some (ref, r)) :
    SameResources (c.closeStream ref r request.getStreamId) (step c (.stop request stop)) := by
  obtain ⟨request', hr, hd⟩ := target_eq_some.1 h
  obtain ⟨htype, hid⟩ := resolve_kept hr
  rw [IotmpMessage.getStreamId_setMessageType] at hid
  have hstep : step c (.stop request stop) = (c.handleStopStream ref r request' stop).1 := by
    simp only [step, handleMessage, IotmpMessage.messageType_setMessageType, handleResourceRequest, hr, hd,
      handleResource, htype]
  rw [hstep, handleStopStream, hid]
  split
  · rename_i m _
    have hstop := managerStop_resources (c.closeStream ref r request.getStreamId) m request.getStreamId stop
    split
    · rename_i hc
      rw [hc] at hstop
      exact hstop
    · rename_i c' stopped hc
      rw [hc] at hstop
      exact hstop.trans (sendMessage_sends (p := fun _ => True) c' trivial).sameResources
  · exact (sendMessage_sends (p := fun _ => True) _ trivial).sameResources

theorem finish_resources (c : Client) (i : ℕ) (outcome : Call ExecResult) :
    SameResources c (step c (.finish i outcome)) := by
  rw [step]
  split_ifs
  · unfold finishStart
    split
    · exact .refl c
    · rename_i o _
      split
      · exact ⟨rfl, rfl⟩
      · rename_i result
        have hsame : SameResources c (if result.isOk then c.registerSession i o
            else c.modifySession i fun o => { o with phase := .failed }) := by
          split_ifs
          · obtain ⟨sessions, heq⟩ := registerSession_eq c i o
            rw [heq]
            exact ⟨rfl, rfl⟩
          · exact ⟨rfl, rfl⟩
        exact hsame.trans (answerStart_sends (p := fun _ => True) _ o.resource result fun _ _ => trivial).sameResources
  · exact .refl c

theorem release_resources (c : Client) (i : ℕ) : SameResources c (step c (.release i)) := by
  rw [step]
  split_ifs
  · unfold endSession
    split
    · exact .refl c
    · rename_i o _
      have hdead : SameResources c (c.modifySession i fun o => { o with alive := false }) := ⟨rfl, rfl⟩
      simp only
      split_ifs
      · exact hdead.trans (managerStop_resources _ o.manager o.streamId (.returns ()))
      · exact hdead
  · exact .refl c

theorem start_streams (c : Client) (request : IotmpMessage) (create : Call Bool) {ref : ResourceRef} {r : Resource}
    (h : c.target (request.setMessageType .startStream) = some (ref, r)) :
    ∃ config, config.resource = some ref ∧
      SameStreams (c.setStream request.getStreamId config) (step c (.start request create)) := by
  obtain ⟨config, hconfig, hsame | ⟨m, -, -, -, hsame⟩⟩ := start_cases c request create h
  · exact ⟨config, hconfig, hsame.sameStreams⟩
  · exact ⟨config, hconfig, hsame.streams, hsame.handlerOf⟩

theorem stop_streams (c : Client) (request : IotmpMessage) (stop : Call Unit) {ref : ResourceRef} {r : Resource}
    (h : c.target (request.setMessageType .stopStream) = some (ref, r)) :
    SameStreams (c.eraseStream request.getStreamId) (step c (.stop request stop)) :=
  (closeStream_same c ref r request.getStreamId).sameStreams.trans (stop_resources stop h).sameStreams

theorem finish_streams (c : Client) (i : ℕ) (outcome : Call ExecResult) :
    SameStreams c (step c (.finish i outcome)) := (finish_resources c i outcome).sameStreams

/-- a session that ends erases no stream -/
theorem release_streams (c : Client) (i : ℕ) : SameStreams c (step c (.release i)) :=
  (release_resources c i).sameStreams

/-! ## One step -/

theorem ReferencesValid.sessionStep {c : Client} (h : c.ReferencesValid) (op : SessionOp) :
    (step c op).ReferencesValid := by
  cases op with
  | start request create =>
    rcases ht : c.target (request.setMessageType .startStream) with _ | ⟨ref, r⟩
    · exact h.same (start_same c request create ht).sameStreams
    · obtain ⟨request', -, hd⟩ := target_eq_some.1 ht
      have hsome : (c.deref ref).isSome := Option.isSome_iff_exists.2 ⟨r, hd⟩
      obtain ⟨config, hconfig, hsame⟩ := start_streams c request create ht
      exact (h.setStream request.getStreamId hconfig hsome).same hsame
  | stop request stop =>
    rcases ht : c.target (request.setMessageType .stopStream) with _ | ⟨ref, r⟩
    · exact h.same (stop_same c request stop ht).sameStreams
    · exact (h.eraseStream request.getStreamId).same (stop_streams c request stop ht)
  | finish i outcome => exact h.same (finish_streams c i outcome)
  | release i => exact h.same (release_streams c i)

theorem ReferencesValid.message {c : Client} (h : c.ReferencesValid) (m : IotmpMessage) (code : SessionCode) :
    (c.handleMessage m code).1.ReferencesValid := by
  by_cases hstart : m.messageType = .startStream
  · rw [handleMessage_start c code hstart]
    exact h.sessionStep _
  · by_cases hstop : m.messageType = .stopStream
    · rw [handleMessage_stop c code hstop]
      exact h.sessionStep _
    · exact h.same (handleMessage_same c m code hstart hstop).sameStreams

theorem ReferencesValid.initializeStream {c : Client} (h : c.ReferencesValid) (eventId : UInt8) (streamId : UInt16)
    (responseData : Json) : (c.initializeStream eventId streamId responseData).1.ReferencesValid := by
  unfold Client.initializeStream
  rcases he : c.events.get eventId with _ | event
  · exact h
  · have hsome : (c.deref (.event eventId)).isSome := Option.isSome_iff_exists.2 ⟨event, he⟩
    have hset : (c.setStream streamId { resource := some (.event eventId) }).ReferencesValid :=
      h.setStream streamId rfl hsome
    have hopen := hset.same (setResourceStreamId_same _ (.event eventId) streamId).sameStreams
    simp only
    split_ifs
    · exact hopen
    · split
      · exact hopen
      · exact hopen

/-- adding a resource or an event removes none -/
theorem isSome_get_set {κ α : Type} [LinearOrder κ] (m : SortedMap κ α) (k k' : κ) (v : α) (h : (m.get k').isSome) :
    ((m.set k v).get k').isSome := by
  rw [SortedMap.get_set]
  split_ifs
  · rfl
  · exact h

/-- **One operation.** -/
theorem referencesValid_step {c : Client} (h : c.ReferencesValid) (op : TableOp) :
    (tableStep c op).ReferencesValid ↔ c.Unreferenced op := by
  have hkeeps : (tableStep c op).ReferencesValid → c.Unreferenced op →
      ((tableStep c op).ReferencesValid ↔ c.Unreferenced op) :=
    fun hstep hop => ⟨fun _ => hop, fun _ => hstep⟩
  cases op with
  | erase path =>
    constructor
    · intro hvalid streamId config hget href
      have hgone := hvalid streamId config (.resource path) hget href
      simp [tableStep, eraseResource, deref, SortedMap.get_remove] at hgone
    · intro hunreferenced streamId config ref hget href
      have hsome := h streamId config ref hget href
      cases ref with
      | event eventId => exact hsome
      | resource path' =>
        have hne : path' ≠ path := by
          intro heq
          rw [heq] at href
          exact hunreferenced streamId config hget href
        simpa [tableStep, eraseResource, deref, SortedMap.get_remove, hne] using hsome
  | register path configure =>
    apply hkeeps _ trivial
    apply h.of_streams
    · exact fun streamId config hget => .inl hget
    · intro ref href
      cases ref with
      | resource path' => exact isSome_get_set _ _ _ _ href
      | event eventId => exact href
  | subscribe configure =>
    apply hkeeps _ trivial
    apply h.of_streams
    · exact fun streamId config hget => .inl hget
    · intro ref href
      cases ref with
      | resource path => exact href
      | event eventId => exact isSome_get_set _ _ _ _ href
  | subscribed eventId streamId responseData => exact hkeeps (h.initializeStream eventId streamId responseData) trivial
  | message m code => exact hkeeps (h.message m code) trivial
  | session op => exact hkeeps (h.sessionStep op) trivial
  | interval due =>
    have hround := streamIntervalRound_sends (p := fun _ => True) c due fun _ _ _ _ _ _ => trivial
    exact hkeeps (h.same hround.same.sameStreams) trivial
  | connection up => exact hkeeps h trivial

end Iotmp.Client
