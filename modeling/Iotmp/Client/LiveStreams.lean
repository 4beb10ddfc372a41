/-
What `streams_` says about the streams that are running, on one connection.

- `startOutcome`: what becomes of a START_STREAM. `Tracked` remembers, for every stream id, the START_STREAM requests
  that were not rejected since the last STOP_STREAM, with their sessions; and every START_STREAM whose session start is
  pending, with the client it found, until it is answered, whatever has been stopped meanwhile.
- `StreamsLive`: `streams_` has an entry for an id iff the last of them is still running. `ErrorsLeave`: a START_STREAM
  that is answered with ERROR, at once or later, has changed neither `streams_` nor the stream id of a resource.
- `inPlace_iff`: a START_STREAM changes no table exactly if it finds its own entry and stream id in place.
- `live_streams_iff`: both hold along a run if and only if every step of the run is `Orderly`: a START_STREAM that is
  rejected finds its own entry in place, one that ends with an exception finds an entry, a start that fails belongs to a
  START_STREAM the entry does not depend on and, if it is answered, that found its own entry in place, and no session
  ends before its STOP_STREAM.
Counterexample: `entries_left_behind`, a rejected START_STREAM, a session that ends by itself, and a START_STREAM that
is answered with ERROR after a STOP_STREAM.
-/
import Mathlib.Tactic
import Iotmp.Client.References

namespace Iotmp.Client

/-! ## The requests so far -/

inductive StartOutcome where
  /-- no resource: no table is touched -/
  | unreached
  /-- answered OK, or pending until `session->start()` of a new session is done -/
  | running (session : Option ℕ)
  /-- answered with ERROR -/
  | rejected
  /-- not answered -/
  | thrown

def startOutcome (c : Client) (request : IotmpMessage) (create : Call Bool) : StartOutcome :=
  match c.target (request.setMessageType .startStream) with
  | none => .unreached
  | some (_, r) =>
    match r.streamHandler with
    | none => .running none
    | some m =>
      if (c.sessions m request.getStreamId).isSome then .rejected
      else
        match create with
        | .throws => .thrown
        | .returns false => .rejected
        | .returns true => .running (some c.objects.length)

/-- `streams_` and the resources' stream ids are the same -/
def TablesKept (c c' : Client) : Prop :=
  (∀ streamId, c'.streams.get streamId = c.streams.get streamId) ∧
    ∀ ref, (c'.deref ref).map Resource.streamId = (c.deref ref).map Resource.streamId

/-- a START_STREAM that was not rejected -/
structure Started where
  session : Option ℕ
  /-- its session has ended -/
  ended : Bool := false

/-- a START_STREAM, and the client it found -/
structure Origin where
  client : Client
  request : IotmpMessage
  create : Call Bool

/-- it has left the tables as they were -/
def Origin.Leaves (o : Origin) : Prop := TablesKept o.client (Client.step o.client (.start o.request o.create))

structure Tracked where
  client : Client
  /-- the last one first; a STOP_STREAM ends them all -/
  started : UInt16 → List Started := fun _ => []
  /-- by session: the START_STREAM that waits for the session's start -/
  pending : ℕ → Option Origin := fun _ => none

namespace Tracked

/-- `session->start()` reported no OK -/
def Failed (outcome : Call ExecResult) : Prop := ∀ result, outcome = .returns result → result.isOk = false

instance (outcome : Call ExecResult) : Decidable (Failed outcome) :=
  match outcome with
  | .throws => isTrue (by simp [Failed])
  | .returns result => decidable_of_iff (result.isOk = false) (by simp [Failed])

def notOf (i : ℕ) (started : List Started) : List Started := started.filter fun r => r.session ≠ some i

def withEnd (i : ℕ) (started : List Started) : List Started :=
  started.map fun r => if r.session = some i then { r with ended := true } else r

def nextStarted (s : Tracked) : SessionOp → UInt16 → List Started
  | .start request create =>
    match s.client.startOutcome request create with
    | .running session =>
      Function.update s.started request.getStreamId (⟨session, false⟩ :: s.started request.getStreamId)
    | _ => s.started
  | .stop request _ => Function.update s.started request.getStreamId []
  | .finish i outcome =>
    if s.client.IsStarting i ∧ Failed outcome then fun streamId => notOf i (s.started streamId) else s.started
  | .release i => if s.client.CanEnd i then fun streamId => withEnd i (s.started streamId) else s.started

/-- a STOP_STREAM answers no START_STREAM -/
def nextPending (s : Tracked) : SessionOp → ℕ → Option Origin
  | .start request create =>
    match s.client.startOutcome request create with
    | .running (some i) => Function.update s.pending i (some ⟨s.client, request, create⟩)
    | _ => s.pending
  | .finish i _ => if s.client.IsStarting i then Function.update s.pending i none else s.pending
  | .stop _ _ | .release _ => s.pending

def step (s : Tracked) (op : SessionOp) : Tracked := ⟨Client.step s.client op, s.nextStarted op, s.nextPending op⟩

/-- the last START_STREAM is still running -/
def Live (started : List Started) : Prop := ∃ r ∈ started.head?, r.ended = false

def StreamsLive (s : Tracked) : Prop :=
  ∀ streamId, (s.client.streams.get streamId).isSome ↔ Live (s.started streamId)

/-- a START_STREAM answered with ERROR, at once or when its session's start has failed, leaves the tables as they
were -/
def ErrorsLeave (s : Tracked) : SessionOp → Prop
  | .start request create =>
    match s.client.startOutcome request create with
    | .unreached => TablesKept s.client (Client.step s.client (.start request create))
    | .rejected => TablesKept s.client (Client.step s.client (.start request create))
    | _ => True
  | .finish i (.returns result) =>
    s.client.IsStarting i → result.isOk = false →
      TablesKept s.client (Client.step s.client (.finish i (.returns result))) ∧ ∀ o ∈ s.pending i, o.Leaves
  | _ => True

/-- the entry a START_STREAM writes is there already, and so is the resource's stream id -/
def InPlace (c : Client) (request : IotmpMessage) : Prop :=
  ∃ ref r, c.target (request.setMessageType .startStream) = some (ref, r) ∧
    c.streams.get request.getStreamId =
      some { resource := some ref, interval := getInterval (request.get Field.PARAMETERS) } ∧
    (getInterval (request.get Field.PARAMETERS) = 0 → r.streamId = request.getStreamId)

def Orderly (s : Tracked) : SessionOp → Prop
  | .start request create =>
    match s.client.startOutcome request create with
    | .rejected => InPlace s.client request
    | .thrown => (s.client.streams.get request.getStreamId).isSome
    | _ => True
  | .stop _ _ => True
  | .finish i outcome =>
    s.client.IsStarting i → Failed outcome →
      (∀ streamId, Live (notOf i (s.started streamId)) ↔ Live (s.started streamId)) ∧
        ((∃ result, outcome = .returns result) → ∀ o ∈ s.pending i, InPlace o.client o.request)
  | .release i =>
    s.client.CanEnd i → ∀ streamId, ∀ r ∈ (s.started streamId).head?, r.session = some i → r.ended = true

end Tracked

/-! ## What a START_STREAM writes -/

theorem deref_setResourceStreamId (c : Client) (ref ref' : ResourceRef) (streamId : UInt16) :
    (c.setResourceStreamId ref streamId).deref ref' =
      if ref' = ref then (c.deref ref).map fun r => { r with streamId := streamId } else c.deref ref' := by
  unfold setResourceStreamId
  rcases hd : c.deref ref with _ | r
  · simp only
    split_ifs with heq
    · rw [heq, hd]
      rfl
    · rfl
  · cases ref with
    | resource path =>
      cases ref' with
      | resource path' =>
        simp only [deref, SortedMap.get_set, ResourceRef.resource.injEq]
        split_ifs
        · rfl
        · rfl
      | event eventId => rfl
    | event eventId =>
      cases ref' with
      | resource path => rfl
      | event eventId' =>
        simp only [deref, SortedMap.get_set, ResourceRef.event.injEq]
        split_ifs
        · rfl
        · rfl

theorem streams_openStream (c : Client) (ref : ResourceRef) (request : IotmpMessage) :
    (c.openStream ref request).streams = c.streams.set request.getStreamId
      { resource := some ref, interval := getInterval (request.get Field.PARAMETERS) } := by
  unfold openStream
  simp only
  split_ifs
  · exact (setResourceStreamId_same _ _ _).streams
  · rfl

theorem deref_openStream (c : Client) (ref ref' : ResourceRef) (request : IotmpMessage) :
    (c.openStream ref request).deref ref' =
      if getInterval (request.get Field.PARAMETERS) = 0 ∧ ref' = ref then
        (c.deref ref).map fun r => { r with streamId := request.getStreamId }
      else c.deref ref' := by
  unfold openStream
  simp only
  split_ifs with hzero hand hand
  · rw [deref_setResourceStreamId, if_pos hand.2]
    rfl
  · rw [deref_setResourceStreamId, if_neg fun heq => hand ⟨hzero, heq⟩]
    rfl
  · exact absurd hand.1 hzero
  · rfl

theorem tablesKept_of_same {c c' c'' : Client} (h : SameResources c' c'') : TablesKept c c'' ↔ TablesKept c c' := by
  rw [TablesKept, TablesKept, h.streams, h.deref]

theorem TablesKept.refl (c : Client) : TablesKept c c := ⟨fun _ => rfl, fun _ => rfl⟩

theorem tablesKept_openStream {c : Client} {ref : ResourceRef} {r : Resource} (hd : c.deref ref = some r)
    (request : IotmpMessage) :
    TablesKept c (c.openStream ref request) ↔
      c.streams.get request.getStreamId =
          some { resource := some ref, interval := getInterval (request.get Field.PARAMETERS) } ∧
        (getInterval (request.get Field.PARAMETERS) = 0 → r.streamId = request.getStreamId) := by
  constructor
  · intro ⟨hstreams, hids⟩
    constructor
    · rw [← hstreams, streams_openStream, SortedMap.get_set_self]
    · intro hzero
      have hid := hids ref
      rw [deref_openStream, if_pos ⟨hzero, rfl⟩, hd] at hid
      exact (Option.some.inj hid).symm
  · intro ⟨hentry, hid⟩
    constructor
    · intro streamId
      rw [streams_openStream, SortedMap.get_set]
      split_ifs with heq
      · rw [heq, hentry]
      · rfl
    · intro ref'
      rw [deref_openStream]
      split_ifs with hand
      · rw [hand.2, hd]
        exact congrArg some (hid hand.1).symm
      · rfl

/-- the request a START_STREAM is handled with has the parameters of the one that arrived -/
theorem resolve_params {c : Client} {request request' : IotmpMessage} {ref : Option ResourceRef}
    (h : c.resolve request = .returns (ref, request')) :
    request'.get Field.PARAMETERS = request.get Field.PARAMETERS := by
  unfold resolve at h
  simp only at h
  split at h
  · cases h
    rfl
  · split at h
    · split at h
      · cases h
      · cases h
        exact IotmpMessage.get_setField _ _ _ _
    · cases h
      rfl

theorem openStream_congr (c : Client) (ref : ResourceRef) {request request' : IotmpMessage}
    (hid : request'.getStreamId = request.getStreamId)
    (hparams : request'.get Field.PARAMETERS = request.get Field.PARAMETERS) :
    c.openStream ref request' = c.openStream ref request := by
  unfold openStream
  rw [hid, hparams]

/-! ## A START_STREAM, by its outcome -/

/-- how a START_STREAM to a resource is handled -/
theorem start_eq {c : Client} {request : IotmpMessage} (create : Call Bool) {ref : ResourceRef} {r : Resource}
    (h : c.target (request.setMessageType .startStream) = some (ref, r)) :
    ∃ request', c.openStream ref request' = c.openStream ref request ∧ request'.getStreamId = request.getStreamId ∧
      step c (.start request create) = (c.handleStartStream ref r request' create).1 := by
  obtain ⟨request', hr, hd⟩ := target_eq_some.1 h
  obtain ⟨htype, hid⟩ := resolve_kept hr
  rw [IotmpMessage.getStreamId_setMessageType] at hid
  have hparams := resolve_params hr
  rw [IotmpMessage.get_setMessageType] at hparams
  refine ⟨request', openStream_congr c ref hid hparams, hid, ?_⟩
  simp only [step, handleMessage, IotmpMessage.messageType_setMessageType, handleResourceRequest, hr, hd,
    handleResource, htype]

/-- **A START_STREAM** changes what `openStream` changes. -/
theorem start_resources {c : Client} {request : IotmpMessage} (create : Call Bool) {ref : ResourceRef} {r : Resource}
    (h : c.target (request.setMessageType .startStream) = some (ref, r)) :
    SameResources (c.openStream ref request) (step c (.start request create)) := by
  obtain ⟨request', hopen, hid, hstep⟩ := start_eq create h
  rw [hstep, handleStartStream, hopen, hid]
  split
  · exact managerStart_resources _ _ _ _ _
  · have hsend := (sendMessage_sends (p := fun _ => True) (c.openStream ref request)
      (m := .withStreamId request.getStreamId .ok) trivial).sameResources
    split
    · rename_i hc
      rw [hc] at hsend
      exact hsend
    · rename_i c' hc
      rw [hc] at hsend
      split_ifs
      · exact hsend.trans (streamResource_sends (p := fun _ => True) c' r fun _ _ => trivial).sameResources
      · exact hsend

theorem start_unreached {c : Client} {request : IotmpMessage} {create : Call Bool}
    (h : c.startOutcome request create = .unreached) :
    c.target (request.setMessageType .startStream) = none ∧
      OnlySends (fun _ => True) c (step c (.start request create)) := by
  have hnone : c.target (request.setMessageType .startStream) = none := by
    unfold startOutcome at h
    rcases ht : c.target (request.setMessageType .startStream) with _ | ⟨ref, r⟩
    · rfl
    · rw [ht] at h
      simp only at h
      split at h
      · simp at h
      · split_ifs at h
        split at h <;> simp at h
  refine ⟨hnone, ?_⟩
  simp only [step, handleMessage, IotmpMessage.messageType_setMessageType]
  exact handleResourceRequest_sends c _ _ hnone

/-! ## Entries lead to resources -/

def EntriesLead (c : Client) : Prop :=
  ∀ streamId config, c.streams.get streamId = some config → ∃ ref, config.resource = some ref ∧ (c.deref ref).isSome

theorem EntriesLead.same {c c' : Client} (h : c.EntriesLead) (hsame : SameStreams c c') : c'.EntriesLead := by
  intro streamId config hget
  rw [hsame.streams] at hget
  obtain ⟨ref, hconfig, href⟩ := h streamId config hget
  refine ⟨ref, hconfig, ?_⟩
  rw [isSome_deref_congr hsame.handlerOf]
  exact href

theorem EntriesLead.step {c : Client} (h : c.EntriesLead) (op : SessionOp) : (Client.step c op).EntriesLead := by
  cases op with
  | start request create =>
    rcases ht : c.target (request.setMessageType .startStream) with _ | ⟨ref, r⟩
    · exact h.same (start_same c request create ht).sameStreams
    · obtain ⟨request', -, hd⟩ := target_eq_some.1 ht
      obtain ⟨config, hconfig, hsame⟩ := start_streams c request create ht
      apply EntriesLead.same _ hsame
      intro streamId config' hget
      simp only [setStream, SortedMap.get_set] at hget
      split_ifs at hget
      · rw [← Option.some.inj hget]
        exact ⟨ref, hconfig, Option.isSome_iff_exists.2 ⟨r, hd⟩⟩
      · exact h streamId config' hget
  | stop request stop =>
    rcases ht : c.target (request.setMessageType .stopStream) with _ | ⟨ref, r⟩
    · exact h.same (stop_same c request stop ht).sameStreams
    · apply EntriesLead.same _ (stop_streams c request stop ht)
      intro streamId config hget
      simp only [eraseStream, SortedMap.get_remove] at hget
      split_ifs at hget
      exact h streamId config hget
  | finish i outcome => exact h.same (finish_streams c i outcome)
  | release i => exact h.same (release_streams c i)

/-- a STOP_STREAM for an id with an entry reaches the entry's resource -/
theorem EntriesLead.target_stop {c : Client} (h : c.EntriesLead) {request : IotmpMessage}
    (hnone : c.target (request.setMessageType .stopStream) = none) : c.streams.get request.getStreamId = none := by
  rcases hget : c.streams.get request.getStreamId with _ | config
  · rfl
  · obtain ⟨ref, hconfig, href⟩ := h _ config hget
    obtain ⟨r, hd⟩ := Option.isSome_iff_exists.1 href
    have hresolve : c.resolve (request.setMessageType .stopStream) =
        .returns (some ref, request.setMessageType .stopStream) := by
      unfold resolve
      simp [hget, hconfig]
    rw [target_eq_some.2 ⟨_, hresolve, hd⟩] at hnone
    exact absurd hnone (by simp)

/-! ## One step -/

namespace Tracked

theorem live_cons (r : Started) (started : List Started) : Live (r :: started) ↔ r.ended = false := by simp [Live]

theorem not_live_nil : ¬ Live [] := by simp [Live]

/-- whether an end of session `i` makes no difference -/
theorem live_withEnd (i : ℕ) (started : List Started) :
    (Live (withEnd i started) ↔ Live started) ↔ ∀ r ∈ started.head?, r.session = some i → r.ended = true := by
  rcases started with _ | ⟨r, started⟩
  · simp [withEnd]
  · rw [withEnd, List.map_cons, live_cons, live_cons]
    by_cases hr : r.session = some i
    · simp [hr]
    · simp [hr]

/-- the table is the same, so the streams must be live as before -/
theorem streamsLive_congr {s s' : Tracked} (h : s.StreamsLive)
    (hstreams : ∀ streamId, s'.client.streams.get streamId = s.client.streams.get streamId) :
    s'.StreamsLive ↔ ∀ streamId, Live (s'.started streamId) ↔ Live (s.started streamId) := by
  constructor
  · intro h' streamId
    rw [← h streamId, ← h' streamId, hstreams]
  · intro h' streamId
    rw [h' streamId, ← h streamId, hstreams]

/-- an entry is written, and the others stay -/
theorem streamsLive_start {s : Tracked} (h : s.StreamsLive) {request : IotmpMessage} {create : Call Bool}
    {ref : ResourceRef} {r : Resource} (ht : s.client.target (request.setMessageType .startStream) = some (ref, r))
    {started : UInt16 → List Started} {pending : ℕ → Option Origin}
    (hother : ∀ streamId, streamId ≠ request.getStreamId → started streamId = s.started streamId) :
    StreamsLive ⟨Client.step s.client (.start request create), started, pending⟩ ↔
      Live (started request.getStreamId) := by
  obtain ⟨config, -, hsame⟩ := start_streams s.client request create ht
  have hget : ∀ streamId, (Client.step s.client (.start request create)).streams.get streamId =
      if streamId = request.getStreamId then some config else s.client.streams.get streamId := by
    intro streamId
    rw [hsame.streams]
    exact SortedMap.get_set _ _ _ _
  constructor
  · intro h'
    have hid := h' request.getStreamId
    simp only [hget, if_true] at hid
    exact hid.1 rfl
  · intro hlive streamId
    simp only [hget]
    split_ifs with heq
    · rw [heq]
      exact ⟨fun _ => hlive, fun _ => rfl⟩
    · rw [hother streamId heq]
      exact h streamId

theorem reached {c : Client} {request : IotmpMessage} {create : Call Bool}
    (h : c.startOutcome request create ≠ .unreached) :
    ∃ ref r, c.target (request.setMessageType .startStream) = some (ref, r) := by
  rcases ht : c.target (request.setMessageType .startStream) with _ | ⟨ref, r⟩
  · unfold startOutcome at h
    rw [ht] at h
    exact absurd rfl h
  · exact ⟨ref, r, rfl⟩

/-- **A START_STREAM changes no table exactly if it finds its entry in place.** -/
theorem inPlace_iff {c : Client} {request : IotmpMessage} {create : Call Bool}
    (h : c.startOutcome request create ≠ .unreached) :
    TablesKept c (Client.step c (.start request create)) ↔ InPlace c request := by
  obtain ⟨ref, r, ht⟩ := reached h
  obtain ⟨request', -, hd⟩ := target_eq_some.1 ht
  rw [tablesKept_of_same (start_resources create ht), tablesKept_openStream hd]
  constructor
  · exact fun hentry => ⟨ref, r, ht, hentry⟩
  · intro ⟨ref', r', ht', hentry⟩
    obtain ⟨rfl, rfl⟩ : ref = ref' ∧ r = r' := by simpa [ht] using ht'
    exact hentry

/-- a START_STREAM: what it leaves behind says whether it was in order -/
theorem start_iff {s : Tracked} (h : s.StreamsLive) (request : IotmpMessage) (create : Call Bool) :
    ((s.step (.start request create)).StreamsLive ∧ s.ErrorsLeave (.start request create)) ↔
      s.Orderly (.start request create) := by
  simp only [step, nextStarted, ErrorsLeave, Orderly]
  rcases ho : s.client.startOutcome request create with _ | session | _ | _
  · have hkept := (tablesKept_of_same (start_unreached ho).2.sameResources).2 (TablesKept.refl s.client)
    simp only [hkept, and_true, iff_true]
    exact (streamsLive_congr h hkept.1).2 fun _ => Iff.rfl
  · obtain ⟨ref, r, ht⟩ := reached (show s.client.startOutcome request create ≠ .unreached by simp [ho])
    simp only [and_true, iff_true]
    rw [streamsLive_start h ht fun streamId hne => Function.update_of_ne hne _ _, Function.update_self, live_cons]
  · have hplace := inPlace_iff (show s.client.startOutcome request create ≠ .unreached by simp [ho])
    rw [← hplace]
    constructor
    · exact fun hq => hq.2
    · exact fun hq => ⟨(streamsLive_congr h hq.1).2 fun _ => Iff.rfl, hq⟩
  · obtain ⟨ref, r, ht⟩ := reached (show s.client.startOutcome request create ≠ .unreached by simp [ho])
    simp only [and_true]
    rw [streamsLive_start h ht fun _ _ => rfl]
    exact (h request.getStreamId).symm

/-- a STOP_STREAM takes the entry of its id, whether the id is in the table or not -/
theorem get_stop {s : Tracked} (hlead : s.client.EntriesLead) (request : IotmpMessage) (stop : Call Unit)
    (streamId : UInt16) :
    (Client.step s.client (.stop request stop)).streams.get streamId =
      if streamId = request.getStreamId then none else s.client.streams.get streamId := by
  rcases ht : s.client.target (request.setMessageType .stopStream) with _ | ⟨ref, r⟩
  · rw [(stop_same s.client request stop ht).streams]
    split_ifs with heq
    · rw [heq]
      exact hlead.target_stop ht
    · rfl
  · rw [(stop_streams s.client request stop ht).streams]
    exact SortedMap.get_remove _ _ _

theorem stop_iff {s : Tracked} (hlead : s.client.EntriesLead) (h : s.StreamsLive) (request : IotmpMessage)
    (stop : Call Unit) :
    ((s.step (.stop request stop)).StreamsLive ∧ s.ErrorsLeave (.stop request stop)) ↔
      s.Orderly (.stop request stop) := by
  simp only [ErrorsLeave, Orderly, and_true, iff_true]
  intro streamId
  simp only [step, nextStarted, get_stop hlead]
  split_ifs with heq
  · rw [heq, Function.update_self]
    exact ⟨fun habs => absurd habs (by simp), fun hlive => absurd hlive not_live_nil⟩
  · rw [Function.update_of_ne heq]
    exact h streamId

/-- every pending START_STREAM has reached a resource -/
def PendingReached (s : Tracked) : Prop :=
  ∀ i, ∀ o ∈ s.pending i, o.client.startOutcome o.request o.create ≠ .unreached

theorem PendingReached.step {s : Tracked} (h : s.PendingReached) (op : SessionOp) : (s.step op).PendingReached := by
  intro i o ho
  simp only [Tracked.step] at ho
  cases op with
  | start request create =>
    rcases hrunning : s.client.startOutcome request create with _ | (_ | j) | _ | _
    · exact h i o (by simpa [nextPending, hrunning] using ho)
    · exact h i o (by simpa [nextPending, hrunning] using ho)
    · simp only [nextPending, hrunning] at ho
      by_cases hij : i = j
      · rw [hij, Function.update_self] at ho
        obtain rfl := Option.some.inj ho
        simp [hrunning]
      · rw [Function.update_of_ne hij] at ho
        exact h i o ho
    · exact h i o (by simpa [nextPending, hrunning] using ho)
    · exact h i o (by simpa [nextPending, hrunning] using ho)
  | stop request stop => exact h i o ho
  | finish j outcome =>
    simp only [nextPending] at ho
    split_ifs at ho
    · by_cases hij : i = j
      · rw [hij, Function.update_self] at ho
        exact absurd ho (by simp)
      · rw [Function.update_of_ne hij] at ho
        exact h i o ho
    · exact h i o ho
  | release j => exact h i o ho

/-- the end of a session start: no table changes, so it is in order if the list of running streams need not change, and
the START_STREAM had changed none -/
theorem finish_iff {s : Tracked} (hpending : s.PendingReached) (h : s.StreamsLive) (i : ℕ) (outcome : Call ExecResult) :
    ((s.step (.finish i outcome)).StreamsLive ∧ s.ErrorsLeave (.finish i outcome)) ↔
      s.Orderly (.finish i outcome) := by
  have hsame := finish_resources s.client i outcome
  have hkept : TablesKept s.client (Client.step s.client (.finish i outcome)) :=
    (tablesKept_of_same hsame).2 (TablesKept.refl s.client)
  have hleaves : (∀ o ∈ s.pending i, o.Leaves) ↔ ∀ o ∈ s.pending i, InPlace o.client o.request := by
    constructor
    · exact fun hall o ho => (inPlace_iff (hpending i o ho)).1 (hall o ho)
    · exact fun hall o ho => (inPlace_iff (hpending i o ho)).2 (hall o ho)
  rw [streamsLive_congr h hkept.1]
  simp only [step, nextStarted, Orderly]
  rcases outcome with result | _
  · have hfailed : Failed (.returns result) ↔ result.isOk = false := by simp [Failed]
    simp only [ErrorsLeave, hfailed, hkept, true_and, hleaves]
    by_cases hbad : s.client.IsStarting i ∧ result.isOk = false
    · simp [hbad]
    · simp only [hbad, if_false, implies_true, true_and]
      constructor
      · exact fun _ hstarting hresult => absurd ⟨hstarting, hresult⟩ hbad
      · exact fun _ hstarting hresult => absurd ⟨hstarting, hresult⟩ hbad
  · have hfailed : Failed .throws := by simp [Failed]
    simp only [ErrorsLeave, hfailed, and_true]
    by_cases hstarting : s.client.IsStarting i
    · simp [hstarting]
    · simp [hstarting]

theorem release_iff {s : Tracked} (h : s.StreamsLive) (i : ℕ) :
    ((s.step (.release i)).StreamsLive ∧ s.ErrorsLeave (.release i)) ↔ s.Orderly (.release i) := by
  have hstreams : ∀ streamId, (Client.step s.client (.release i)).streams.get streamId =
      s.client.streams.get streamId := by
    intro streamId
    rw [(release_streams s.client i).streams]
  rw [streamsLive_congr h hstreams]
  simp only [step, nextStarted, ErrorsLeave, Orderly, and_true]
  by_cases hend : s.client.CanEnd i
  · simp only [hend, if_true, forall_const]
    exact forall_congr' fun streamId => live_withEnd i (s.started streamId)
  · simp [hend]

/-- **One event.** -/
theorem step_iff {s : Tracked} (hlead : s.client.EntriesLead) (hpending : s.PendingReached) (h : s.StreamsLive)
    (op : SessionOp) :
    ((s.step op).StreamsLive ∧ s.ErrorsLeave op) ↔ s.Orderly op := by
  cases op with
  | start request create => exact start_iff h request create
  | stop request stop => exact stop_iff hlead h request stop
  | finish i outcome => exact finish_iff hpending h i outcome
  | release i => exact release_iff h i

/-! ## Runs -/

/-- a connection begins with an empty stream table -/
def begin (c : Client) : Tracked := { client := { c with streams := SortedMap.empty } }

/-- what the stream table promises of a step -/
def Keeps (s : Tracked) (op : SessionOp) : Prop := (s.step op).StreamsLive ∧ s.ErrorsLeave op

/-- **Live streams.** In every state of a connection `streams_` has exactly the streams that are running, and no
START_STREAM answered with ERROR changes a table, if and only if every step is orderly. -/
theorem live_streams_iff (c : Client) (ops : List SessionOp) :
    Run.Steps step Keeps (begin c) ops ↔ Run.Steps step Orderly (begin c) ops := by
  apply Run.Steps.iff_of_invariant (I := fun s => s.client.EntriesLead ∧ s.PendingReached ∧ s.StreamsLive)
  · exact fun s op hs hop => ⟨hs.1.step op, hs.2.1.step op, hop.1⟩
  · exact fun s op hs => step_iff hs.1 hs.2.1 hs.2.2 op
  · refine ⟨fun streamId config hget => ?_, fun i o ho => ?_, fun streamId => ?_⟩
    · exact absurd hget (by simp [begin])
    · exact absurd ho (by simp [begin])
    · simp [begin, Live]

/-- a client with the managed resource `a` -/
def managedClient : Client := { resources := SortedMap.empty.set [0x61] { streamHandler := some 0 } }

def startManaged : IotmpMessage :=
  IotmpMessage.setField (.withStreamId 5 .startStream) Field.RESOURCE (.string [0x61])

/-- **Entries that stay**: of a START_STREAM whose `create_session` makes no session, and of a session that ends before
its STOP_STREAM. A START_STREAM that is stopped while it starts has written an entry, and is answered with ERROR. -/
theorem entries_left_behind :
    ¬ Run.Steps step Keeps (begin managedClient) [.start startManaged (.returns false)] ∧
      ¬ Run.Steps step Keeps (begin managedClient) [.start startManaged (.returns true),
        .finish 0 (.returns (.ofBool true)), .release 0] ∧
      ¬ Run.Steps step Keeps (begin managedClient) [.start startManaged (.returns true),
        .stop startManaged (.returns ()), .finish 0 (.returns (.ofBool false))] := by
  refine ⟨?_, ?_, ?_⟩
  · intro h
    have hlive := (h.1.1 5).1 (by decide)
    exact absurd hlive not_live_nil
  · intro h
    have hlive := (h.2.2.1.1 5).1 (by decide)
    exact absurd ((live_cons ⟨some 0, true⟩ []).1 hlive) (by decide)
  · intro h
    obtain ⟨-, hleaves⟩ := h.2.2.1.2 (by decide) rfl
    have hkept := (hleaves ⟨(begin managedClient).client, startManaged, .returns true⟩ rfl).1 5
    exact absurd (congrArg Option.isSome hkept) (by decide)

end Tracked

end Iotmp.Client
