/-
The stream ids that the client chooses (`iotmp_message.hpp`: `set_random_stream_id`; `client.hpp`: `initialize_streams`,
`send_message_with_ack`).

A START_STREAM of `initialize_streams` and a RUN that waits for its answer get the low 16 bits of `rand()`. Nobody looks
at `streams_`, whose ids the server chooses too, or at the requests that are waiting.

- `IdSpace`: the client, the requests that wait, what was drawn for them and which events are subscribed.
- `IdOp`, `step`: a draw, an OK, another end of a wait, and everything else that touches the tables.
- `Fresh`, `Routed`: no id that was drawn is zero or in use; `streams_` leads from the id of a subscribed event to the
  event. `Avoids`: the condition on one operation.
- `stream_ids_iff`: both hold in every state of a run iff every value of `rand()` is free in its low 16 bits, and no
  START_STREAM of the server opens the stream of a subscribed event.
- `initializeStreams_run`, `sendMessageWithAck_run`: the two functions are such runs.
Counterexample: `same_value_twice`, two events of which the second takes the stream of the first.
-/
import Mathlib.Tactic
import Iotmp.Client.Events
import Iotmp.Client.Routing

namespace Iotmp

/-! ## The functions that choose an id -/

/-- `set_random_stream_id`, when `rand()` returns `value` -/
def IotmpMessage.setRandomStreamId (m : IotmpMessage) (value : ℕ) : IotmpMessage := m.setStreamId (UInt16.ofNat value)

namespace Client

/-- `send_message_with_ack` -/
def sendMessageWithAck (c : Client) (message : IotmpMessage) (waitAck : Bool) (value : ℕ) (written : Bool)
    (reads : List (ReadOutcome × SessionCode)) : Client × Call Bool :=
  let message := if waitAck ∧ message.getStreamId = 0 then message.setRandomStreamId value else message
  if message.Logs c.logging then
    if written then
      if waitAck then
        match c.waitResponse message reads with
        | (c, .throws) => (c, .throws)
        | (c, .returns (success, _)) => (c, .returns success)
      else (c, .returns true)
    else ({ c with connected := false }, .returns false)
  else (c, .throws)

/-- the event whose stream a STOP_STREAM closes -/
def stoppedEvent (c : Client) (m : IotmpMessage) : Option UInt8 :=
  match c.target m with
  | some (.event eventId, r) =>
    if m.messageType = .stopStream ∧ r.streamId = m.getStreamId then some eventId else none
  | _ => none

end Client

/-! ## Runs -/

/-- a request of the client that waits for its answer -/
structure Request where
  streamId : UInt16
  /-- the event that it subscribes -/
  event : Option UInt8 := none

/-- an id of `set_random_stream_id`, and what was in use then -/
structure Draw where
  streamId : UInt16
  active : SortedMap UInt16 StreamConfig
  outstanding : List UInt16

structure IdSpace where
  client : Client
  outstanding : List Request := []
  /-- the events that were confirmed on this connection, and not stopped since -/
  subscribed : List UInt8 := []
  draws : List Draw := []

/-- what is not about an id of the client, and gives no event one -/
def Client.Foreign : Client.TableOp → Prop
  | .subscribe configure => ∀ r, (configure r).streamId = r.streamId
  | .subscribed _ _ _ => False
  -- these two are messages
  | .session (.start _ _) => False
  | .session (.stop _ _) => False
  | _ => True

inductive IdOp where
  /-- a request gets the id of `set_random_stream_id`, and waits from then on -/
  | draw (event : Option UInt8) (value : ℕ)
  /-- a request waits that has an id already -/
  | given (streamId : UInt16)
  /-- the OK for the START_STREAM at `i` -/
  | confirmed (i : ℕ) (responseData : Json)
  /-- the wait of the request at `i` ends otherwise -/
  | ended (i : ℕ)
  | other (op : Client.TableOp) (foreign : Client.Foreign op)

namespace IdSpace

def ids (s : IdSpace) : List UInt16 := s.outstanding.map Request.streamId

def remaining (s : IdSpace) : Client.TableOp → List UInt8
  | .message m _ => s.subscribed.filter fun eventId => s.client.stoppedEvent m ≠ some eventId
  | .connection true => []
  | _ => s.subscribed

def step (s : IdSpace) : IdOp → IdSpace
  | .draw event value =>
    let streamId := UInt16.ofNat value
    { s with
      outstanding := s.outstanding ++ [⟨streamId, event⟩]
      draws := s.draws ++ [⟨streamId, s.client.streams, s.ids⟩] }
  | .given streamId => { s with outstanding := s.outstanding ++ [⟨streamId, none⟩] }
  | .confirmed i responseData =>
    match s.outstanding[i]? with
    | some ⟨streamId, some eventId⟩ =>
      { s with
        client := (s.client.initializeStream eventId streamId responseData).1
        outstanding := s.outstanding.eraseIdx i
        subscribed := if (s.client.events.get eventId).isSome then eventId :: s.subscribed else s.subscribed }
    | _ => s
  | .ended i => { s with outstanding := s.outstanding.eraseIdx i }
  | .other op _ => { s with client := Client.tableStep s.client op, subscribed := s.remaining op }

/-- **Every id that was drawn was free**: not zero, no active stream's, no other request's. -/
def Fresh (s : IdSpace) : Prop :=
  ∀ d ∈ s.draws, d.streamId ≠ 0 ∧ d.active.get d.streamId = none ∧ d.streamId ∉ d.outstanding

/-- the event has the id -/
def Has (s : IdSpace) (eventId : UInt8) (streamId : UInt16) : Prop :=
  ∃ event, s.client.events.get eventId = some event ∧ event.streamId = streamId

/-- **`streams_[event.get_stream_id()].resource == &event`**, for the events that are subscribed. -/
def Routed (s : IdSpace) : Prop :=
  ∀ eventId ∈ s.subscribed, ∃ streamId, s.Has eventId streamId ∧
    ∃ config, s.client.streams.get streamId = some config ∧ config.resource = some (.event eventId)

/-- **The condition.** The low 16 bits of a value of `rand()` are a free id, and no START_STREAM opens the stream of a
subscribed event. -/
def Avoids (s : IdSpace) : IdOp → Prop
  | .draw _ value =>
    value % 65536 ≠ 0 ∧
      (∀ streamId : UInt16, (s.client.streams.get streamId).isSome → value % 65536 ≠ streamId.toNat) ∧
      ∀ streamId ∈ s.ids, value % 65536 ≠ streamId.toNat
  | .other (.message m _) _ =>
    m.messageType = .startStream → (s.client.target m).isSome →
      ∀ eventId ∈ s.subscribed, ¬ s.Has eventId m.getStreamId
  | _ => True

/-! ## The invariant -/

/-- the ids of requests that will subscribe events are apart from each other and from those of subscribed events -/
structure Sound (s : IdSpace) : Prop where
  fresh : s.Fresh
  routed : s.Routed
  distinct : s.outstanding.Pairwise fun r r' => r.event.isSome → r'.event.isSome → r.streamId ≠ r'.streamId
  apart : ∀ r ∈ s.outstanding, r.event.isSome → ∀ eventId ∈ s.subscribed, ¬ s.Has eventId r.streamId

/-- other tables, in which the ids of subscribed events are the same and lead where they led -/
theorem Sound.kept {s s' : IdSpace} (h : s.Sound) (houtstanding : s'.outstanding = s.outstanding)
    (hdraws : s'.draws = s.draws)
    (hhas : ∀ eventId ∈ s'.subscribed,
      eventId ∈ s.subscribed ∧ ∀ streamId, s'.Has eventId streamId ↔ s.Has eventId streamId)
    (hstreams : ∀ eventId ∈ s'.subscribed, ∀ streamId, s.Has eventId streamId →
      s'.client.streams.get streamId = s.client.streams.get streamId) : s'.Sound where
  fresh := by
    rw [Fresh, hdraws]
    exact h.fresh
  routed := by
    intro eventId he
    obtain ⟨hold, hsame⟩ := hhas eventId he
    obtain ⟨streamId, hid, config, hget, hconfig⟩ := h.routed eventId hold
    refine ⟨streamId, (hsame streamId).2 hid, config, ?_, hconfig⟩
    rw [hstreams eventId he streamId hid]
    exact hget
  distinct := by
    rw [houtstanding]
    exact h.distinct
  apart := by
    intro r hr hevent eventId he
    obtain ⟨hold, hsame⟩ := hhas eventId he
    rw [houtstanding] at hr
    rw [hsame]
    exact h.apart r hr hevent eventId hold

/-- fewer requests -/
theorem Sound.fewer {s : IdSpace} (h : s.Sound) {outstanding : List Request}
    (hsub : outstanding.Sublist s.outstanding) : Sound { s with outstanding := outstanding } where
  fresh := h.fresh
  routed := h.routed
  distinct := h.distinct.sublist hsub
  apart := fun r hr => h.apart r (hsub.subset hr)

/-- one more request -/
theorem Sound.more {s : IdSpace} (h : s.Sound) {r : Request}
    (hids : r.event.isSome → r.streamId ∉ s.ids)
    (hstreams : r.event.isSome → s.client.streams.get r.streamId = none) :
    Sound { s with outstanding := s.outstanding ++ [r] } where
  fresh := h.fresh
  routed := h.routed
  distinct := by
    refine List.pairwise_append.2 ⟨h.distinct, List.pairwise_singleton _ _, fun r' hr' r'' hr'' hevent' hevent => ?_⟩
    obtain rfl := List.mem_singleton.1 hr''
    intro heq
    exact hids hevent (List.mem_map.2 ⟨r', hr', heq⟩)
  apart := by
    intro r' hr' hevent eventId he hhas
    rcases List.mem_append.1 hr' with hr' | hr'
    · exact h.apart r' hr' hevent eventId he hhas
    · -- a subscribed event's id has an entry
      obtain rfl := List.mem_singleton.1 hr'
      obtain ⟨streamId, ⟨event, hget, rfl⟩, config, hconfig, -⟩ := h.routed eventId he
      obtain ⟨event', hget', hid⟩ := hhas
      obtain rfl : event = event' := Option.some.inj (hget.symm.trans hget')
      rw [hid, hstreams hevent] at hconfig
      exact absurd hconfig (by simp)

/-! ## One step -/

theorem toNat_drawn (value : ℕ) : (UInt16.ofNat value).toNat = value % 65536 := UInt16.toNat_ofNat'

/-- an id of `rand()` is another one than `streamId` -/
theorem drawn_ne_iff (value : ℕ) (streamId : UInt16) :
    UInt16.ofNat value ≠ streamId ↔ value % 65536 ≠ streamId.toNat := by
  rw [← toNat_drawn, Ne, Ne, UInt16.toNat_inj]

/-- what is asked of a value of `rand()` is that the id it gives is free -/
theorem avoids_draw (s : IdSpace) (event : Option UInt8) (value : ℕ) :
    s.Avoids (.draw event value) ↔
      UInt16.ofNat value ≠ 0 ∧ s.client.streams.get (UInt16.ofNat value) = none ∧ UInt16.ofNat value ∉ s.ids := by
  refine and_congr (drawn_ne_iff value 0).symm (and_congr ⟨fun h => ?_, fun h streamId hsome => ?_⟩
    ⟨fun h hmem => h _ hmem (toNat_drawn value).symm, fun h streamId hmem => ?_⟩)
  · by_contra hsome
    exact h _ (Option.isSome_iff_ne_none.2 hsome) (toNat_drawn value).symm
  · rw [← drawn_ne_iff]
    rintro rfl
    rw [h] at hsome
    exact absurd hsome (by simp)
  · rw [← drawn_ne_iff]
    rintro rfl
    exact h hmem

theorem Sound.draw {s : IdSpace} (h : s.Sound) (event : Option UInt8) (value : ℕ) (hop : s.Avoids (.draw event value)) :
    (s.step (.draw event value)).Sound := by
  obtain ⟨hzero, hstreams, hids⟩ := (avoids_draw s event value).1 hop
  have hmore := h.more (r := ⟨UInt16.ofNat value, event⟩) (fun _ => hids) (fun _ => hstreams)
  refine ⟨?_, hmore.routed, hmore.distinct, hmore.apart⟩
  intro d hd
  rcases List.mem_append.1 hd with hd | hd
  · exact h.fresh d hd
  · obtain rfl := List.mem_singleton.1 hd
    exact ⟨hzero, hstreams, hids⟩

theorem Sound.confirmed {s : IdSpace} (h : s.Sound) (i : ℕ) (responseData : Json) :
    (s.step (.confirmed i responseData)).Sound := by
  rw [step]
  split
  swap
  · exact h
  rename_i streamId eventId hi
  rcases he : s.client.events.get eventId with _ | event
  · have hfewer := h.fewer (s.outstanding.eraseIdx_sublist i)
    simpa [Client.initializeStream, he] using hfewer
  obtain ⟨hstreams, hevents⟩ := Client.initializeStream_routing he streamId responseData
  obtain ⟨hlt, hget⟩ := List.getElem?_eq_some_iff.1 hi
  -- the request, and those that still wait
  have hperm : (⟨streamId, some eventId⟩ :: s.outstanding.eraseIdx i).Perm s.outstanding := by
    rw [← hget]
    exact List.getElem_cons_eraseIdx_perm hlt
  have hdistinct : (⟨streamId, some eventId⟩ :: s.outstanding.eraseIdx i).Pairwise
      fun r r' : Request => r.event.isSome → r'.event.isSome → r.streamId ≠ r'.streamId :=
    (hperm.pairwise_iff fun hne hevent hevent' => (hne hevent' hevent).symm).2 h.distinct
  obtain ⟨hothers, hrest⟩ := List.pairwise_cons.1 hdistinct
  have hapart := h.apart ⟨streamId, some eventId⟩ (hperm.subset List.mem_cons_self) rfl
  simp only [Option.isSome_some, if_true]
  refine ⟨h.fresh, fun eventId' hmem => ?_, hrest, ?_⟩
  · by_cases heq : eventId' = eventId
    · refine ⟨streamId, ⟨{ event with streamId := streamId }, ?_, rfl⟩, { resource := some (.event eventId) }, ?_, ?_⟩
      · rw [hevents, heq, SortedMap.get_set_self]
      · rw [hstreams, SortedMap.get_set_self]
      · rw [heq]
    · have hold := (List.mem_cons.1 hmem).resolve_left heq
      obtain ⟨streamId', ⟨event', hevent', hid⟩, config, hconfig, hresource⟩ := h.routed eventId' hold
      have hne : streamId' ≠ streamId := by
        rintro rfl
        exact hapart eventId' hold ⟨event', hevent', hid⟩
      refine ⟨streamId', ⟨event', ?_, hid⟩, config, ?_, hresource⟩
      · rw [hevents, SortedMap.get_set_ne _ _ heq]
        exact hevent'
      · rw [hstreams, SortedMap.get_set_ne _ _ hne]
        exact hconfig
  · rintro r hr hevent eventId' hmem ⟨event', hevent', hid⟩
    rw [hevents, SortedMap.get_set] at hevent'
    split_ifs at hevent' with heq
    · obtain rfl := Option.some.inj hevent'
      exact hothers r hr rfl hevent hid
    · have hold := (List.mem_cons.1 hmem).resolve_left heq
      exact h.apart r (hperm.subset (List.mem_cons_of_mem _ hr)) hevent eventId' hold ⟨event', hevent', hid⟩

/-! ## Messages -/

theorem Sound.start {s : IdSpace} (h : s.Sound) {m : IotmpMessage} (code : SessionCode)
    (hm : m.messageType = .startStream) {ref : ResourceRef} {r : Resource} (ht : s.client.target m = some (ref, r))
    (hop : ∀ eventId ∈ s.subscribed, ¬ s.Has eventId m.getStreamId) :
    (s.step (.other (.message m code) trivial)).Sound := by
  obtain ⟨path, rfl⟩ := Client.target_start hm ht
  obtain ⟨config, -, hrouting⟩ := Client.handleMessage_start_routing s.client code hm ht
  refine h.kept rfl rfl ?_ ?_
  · intro eventId he
    refine ⟨List.mem_of_mem_filter he, fun streamId => ?_⟩
    show (∃ event, (s.client.handleMessage m code).1.events.get eventId = some event ∧ _) ↔ _
    rw [hrouting.events]
    rfl
  · intro eventId he streamId hhas
    show (s.client.handleMessage m code).1.streams.get streamId = _
    have hne : streamId ≠ m.getStreamId := by
      rintro rfl
      exact hop eventId (List.mem_of_mem_filter he) hhas
    rw [hrouting.streams]
    exact SortedMap.get_set_ne _ _ hne

/-- a STOP_STREAM for the id of a subscribed event reaches the event -/
theorem Sound.target_stop {s : IdSpace} (h : s.Sound) {m : IotmpMessage} (hm : m.messageType = .stopStream)
    {eventId : UInt8} (he : eventId ∈ s.subscribed) (hhas : s.Has eventId m.getStreamId) :
    s.client.stoppedEvent m = some eventId := by
  obtain ⟨streamId, ⟨event, hget, rfl⟩, config, hconfig, hresource⟩ := h.routed eventId he
  obtain ⟨event', hget', hid⟩ := hhas
  obtain rfl : event = event' := Option.some.inj (hget.symm.trans hget')
  rw [hid] at hconfig
  have hresolve : s.client.resolve m = .returns (some (.event eventId), m) := by
    simp [Client.resolve, hm, hconfig, hresource]
  have htarget := Client.target_eq_some.2 ⟨m, hresolve, hget⟩
  simp [Client.stoppedEvent, htarget, hm, hid]

/-- the ids of events that a STOP_STREAM leaves -/
theorem closeStream_events {c : Client} {m : IotmpMessage} (hm : m.messageType = .stopStream) {ref : ResourceRef}
    {r : Resource} (ht : c.target m = some (ref, r)) {eventId : UInt8} (hne : c.stoppedEvent m ≠ some eventId) :
    (c.closeStream ref r m.getStreamId).events.get eventId = c.events.get eventId := by
  unfold Client.closeStream
  split_ifs with hid
  · obtain ⟨request, -, hd⟩ := Client.target_eq_some.1 ht
    cases ref with
    | resource path => simp [Client.eraseStream, Client.setResourceStreamId, hd]
    | event eventId' =>
      have hstopped : c.stoppedEvent m = some eventId' := by simp [Client.stoppedEvent, ht, hm, hid]
      have heq : eventId ≠ eventId' := by
        rintro rfl
        exact hne hstopped
      simp only [Client.eraseStream, Client.setResourceStreamId, hd]
      exact SortedMap.get_set_ne _ _ heq
  · rfl

theorem Sound.stop {s : IdSpace} (h : s.Sound) {m : IotmpMessage} (code : SessionCode)
    (hm : m.messageType = .stopStream) {ref : ResourceRef} {r : Resource} (ht : s.client.target m = some (ref, r)) :
    (s.step (.other (.message m code) trivial)).Sound := by
  have hrouting := Client.handleMessage_stop_routing s.client code hm ht
  have hleft : ∀ eventId ∈ s.remaining (.message m code),
      eventId ∈ s.subscribed ∧ s.client.stoppedEvent m ≠ some eventId := by
    intro eventId he
    simpa [remaining] using he
  refine h.kept rfl rfl ?_ ?_
  · intro eventId he
    obtain ⟨hold, hne⟩ := hleft eventId he
    refine ⟨hold, fun streamId => ?_⟩
    show (∃ event, (s.client.handleMessage m code).1.events.get eventId = some event ∧ _) ↔ _
    rw [hrouting.events, closeStream_events hm ht hne]
    rfl
  · intro eventId he streamId hhas
    obtain ⟨hold, hne⟩ := hleft eventId he
    have hother : streamId ≠ m.getStreamId := by
      rintro rfl
      exact hne (h.target_stop hm hold hhas)
    show (s.client.handleMessage m code).1.streams.get streamId = _
    rw [hrouting.streams]
    simp only [Client.closeStream]
    split_ifs
    · rw [Client.eraseStream, SortedMap.get_remove, if_neg hother, (Client.setResourceStreamId_same _ _ _).streams]
    · rw [Client.eraseStream, SortedMap.get_remove, if_neg hother]

/-- tables that lead as before -/
theorem Sound.sameRouting {s s' : IdSpace} (h : s.Sound) (hrouting : Client.SameRouting s.client s'.client)
    (houtstanding : s'.outstanding = s.outstanding) (hdraws : s'.draws = s.draws)
    (hsubscribed : s'.subscribed ⊆ s.subscribed) : s'.Sound := by
  refine h.kept houtstanding hdraws (fun eventId he => ⟨hsubscribed he, fun streamId => ?_⟩) fun _ _ streamId _ => ?_
  · rw [Has, Has, hrouting.events]
  · rw [hrouting.streams]

theorem Sound.message {s : IdSpace} (h : s.Sound) (m : IotmpMessage) (code : SessionCode)
    (hop : s.Avoids (.other (.message m code) trivial)) : (s.step (.other (.message m code) trivial)).Sound := by
  rcases ht : s.client.target m with _ | ⟨ref, r⟩
  · exact h.sameRouting (Client.handleMessage_onlySends s.client m code (.inl ht)).routing rfl rfl
      fun _ he => List.mem_of_mem_filter he
  · by_cases hstart : m.messageType = .startStream
    · exact h.start code hstart ht (hop hstart (by rw [ht]; rfl))
    · by_cases hstop : m.messageType = .stopStream
      · exact h.stop code hstop ht
      · exact h.sameRouting (Client.handleMessage_onlySends s.client m code (.inr ⟨hstart, hstop⟩)).routing rfl rfl
          fun _ he => List.mem_of_mem_filter he

/-- the id of an event after another call that creates one -/
theorem has_subscribe (s : IdSpace) {configure : Resource → Resource}
    (hkept : ∀ r, (configure r).streamId = r.streamId) {eventId : UInt8} {event : Resource}
    (he : s.client.events.get eventId = some event) (streamId : UInt16) :
    Has { s with client := s.client.eventSubscribe configure } eventId streamId ↔ s.Has eventId streamId := by
  have hnew : (s.client.eventSubscribe configure).events.get eventId =
      some (if eventId = s.client.nextEventId then configure event else event) := by
    rw [Client.eventSubscribe, SortedMap.get_set]
    split_ifs with heq
    · rw [← heq, he]
      rfl
    · exact he
  simp only [Has, hnew, he, Option.some.injEq, exists_eq_left']
  split_ifs
  · rw [hkept]
  · exact Iff.rfl

theorem Sound.other {s : IdSpace} (h : s.Sound) (op : Client.TableOp) (hforeign : Client.Foreign op)
    (hop : s.Avoids (.other op hforeign)) : (s.step (.other op hforeign)).Sound := by
  cases op with
  | register path configure => exact h.sameRouting ⟨rfl, rfl⟩ rfl rfl (List.Subset.refl _)
  | erase path => exact h.sameRouting ⟨rfl, rfl⟩ rfl rfl (List.Subset.refl _)
  | subscribe configure =>
    refine h.kept rfl rfl (fun eventId he => ⟨he, fun streamId => ?_⟩) fun _ _ _ _ => rfl
    obtain ⟨_, ⟨event, hget, -⟩, -⟩ := h.routed eventId he
    exact s.has_subscribe hforeign hget streamId
  | subscribed eventId streamId responseData => exact hforeign.elim
  | message m code => exact h.message m code hop
  | session op =>
    cases op with
    | start request create => exact hforeign.elim
    | stop request stop => exact hforeign.elim
    | finish i outcome =>
      refine h.sameRouting ?_ rfl rfl (List.Subset.refl _)
      show Client.SameRouting s.client (Client.step s.client (.finish i outcome))
      rw [Client.step]
      split_ifs
      · exact Client.finishStart_routing s.client i outcome
      · exact .refl _
    | release i =>
      refine h.sameRouting ?_ rfl rfl (List.Subset.refl _)
      show Client.SameRouting s.client (Client.step s.client (.release i))
      rw [Client.step]
      split_ifs
      · exact Client.endSession_routing s.client i
      · exact .refl _
  | interval due =>
    have hround := Client.streamIntervalRound_sends (p := fun _ => True) s.client due
      fun _ _ _ _ _ _ => trivial
    exact h.sameRouting hround.routing rfl rfl (List.Subset.refl _)
  | connection up =>
    refine h.sameRouting ⟨rfl, rfl⟩ rfl rfl ?_
    cases up with
    | true => exact List.nil_subset _
    | false => exact List.Subset.refl _

/-- **One operation that meets the condition.** -/
theorem Sound.step {s : IdSpace} (h : s.Sound) (op : IdOp) (hop : s.Avoids op) : (s.step op).Sound := by
  cases op with
  | draw event value => exact h.draw event value hop
  | given streamId =>
    have hnone : ¬ (none : Option UInt8).isSome := by simp
    exact h.more (r := ⟨streamId, none⟩) (fun hevent => absurd hevent hnone) fun hevent => absurd hevent hnone
  | confirmed i responseData => exact h.confirmed i responseData
  | ended i => exact h.fewer (s.outstanding.eraseIdx_sublist i)
  | other op hforeign => exact h.other op hforeign hop

/-- **One operation that does not**: an id that is not free, or a subscribed event whose id leads elsewhere. -/
theorem avoids_of_step {s : IdSpace} (op : IdOp) (h : (s.step op).Fresh ∧ (s.step op).Routed) : s.Avoids op := by
  obtain ⟨hfresh, hrouted⟩ := h
  cases op with
  | draw event value =>
    rw [avoids_draw]
    exact hfresh _ (List.mem_append_right _ (List.mem_singleton_self _))
  | other op hforeign =>
    cases op with
    | message m code =>
      rintro hstart hreached eventId he ⟨event, hget, hid⟩
      obtain ⟨⟨ref, r⟩, ht⟩ := Option.isSome_iff_exists.1 hreached
      obtain ⟨path, rfl⟩ := Client.target_start hstart ht
      obtain ⟨config, hconfig, hrouting⟩ := Client.handleMessage_start_routing s.client code hstart ht
      have hmem : eventId ∈ (s.step (.other (.message m code) hforeign)).subscribed := by
        have hnot : s.client.stoppedEvent m = none := by simp [Client.stoppedEvent, ht]
        simpa [IdSpace.step, remaining, hnot] using he
      obtain ⟨streamId, ⟨event', hget', hid'⟩, config', hget'', hconfig'⟩ := hrouted eventId hmem
      have hsame : event' = event := by
        have hevents : (s.client.handleMessage m code).1.events.get eventId = some event' := hget'
        rw [hrouting.events] at hevents
        exact Option.some.inj (hevents.symm.trans hget)
      have hstreams : (s.client.handleMessage m code).1.streams.get streamId = some config' := hget''
      rw [hrouting.streams, ← hid', hsame, hid] at hstreams
      obtain rfl : config = config' := by simpa [Client.setStream] using hstreams
      rw [hconfig] at hconfig'
      exact absurd hconfig' (by simp)
    | _ => trivial
  | _ => trivial

/-! ## Runs of any length -/

theorem sound_begin (c : Client) : Sound { client := c } where
  fresh := by simp [Fresh]
  routed := by simp [Routed]
  distinct := List.Pairwise.nil
  apart := by simp

/-- **Stream ids.** In every state of a run every id that was drawn was free and `streams_` leads from the id of every
subscribed event to the event, if and only if every value of `rand()` is free in its low 16 bits and no START_STREAM
opens the stream of a subscribed event. -/
theorem stream_ids_iff (c : Client) (ops : List IdOp) :
    (∀ ops', ops' <+: ops → (Run.run step { client := c } ops').Fresh ∧ (Run.run step { client := c } ops').Routed) ↔
      Run.Steps step Avoids { client := c } ops :=
  Run.always_iff_steps_of_invariant (I := Sound) (P := fun s => s.Fresh ∧ s.Routed) (fun _ op h hop => h.step op hop)
    (fun _ h => ⟨h.fresh, h.routed⟩) (fun _ op h => avoids_of_step op h) _ ops (sound_begin c)

/-- two events, and a `rand()` that returns 7 for both -/
def sameValue : List IdOp :=
  [.other (.subscribe id) fun _ => rfl, .other (.subscribe id) fun _ => rfl,
    .draw (some 1) 7, .confirmed 0 .null, .draw (some 2) 7, .confirmed 0 .null]

/-- **The second event takes the stream of the first.** -/
theorem same_value_twice :
    ¬ ∀ ops', ops' <+: sameValue →
      (Run.run step { client := {} } ops').Fresh ∧ (Run.run step { client := {} } ops').Routed := by
  intro h
  obtain ⟨-, hrouted⟩ := h _ List.prefix_rfl
  obtain ⟨streamId, ⟨event, hget, hid⟩, config, hconfig, hresource⟩ := hrouted 1 (by decide)
  have hseven : ((Run.run step { client := {} } sameValue).client.events.get 1).map Resource.streamId = some 7 := by
    decide
  have hsecond : ((Run.run step { client := {} } sameValue).client.streams.get 7).bind StreamConfig.resource =
      some (.event 2) := by decide
  obtain rfl : streamId = 7 := by simpa [hget, hid] using hseven
  have hfirst : some (ResourceRef.event 1) = some (ResourceRef.event 2) := by
    rw [← hsecond, hconfig]
    exact hresource.symm
  exact absurd hfirst (by decide)

end IdSpace

/-! ## The functions are such runs -/

/-- the messages that are handled while `wait_response` waits -/
def Client.waitOps (request : IotmpMessage) : Client → List (ReadOutcome × SessionCode) → List IdOp
  | _, [] => []
  | c, (outcome, code) :: reads =>
    match consume (.waitResponse request true) outcome with
    | .handle m =>
      .other (.message m code) trivial ::
        if (c.handleMessage m code).2 then waitOps request (c.handleMessage m code).1 reads else []
    | _ => []

/-- `write_message` and `wait_response` for the request at `i`; `answered` says what becomes of the answer -/
def Client.exchangeOps (c : Client) (i : ℕ) (request : IotmpMessage) (written : Bool)
    (reads : List (ReadOutcome × SessionCode)) (answered : Call (Bool × Json) → IdOp) : List IdOp :=
  if request.Logs c.logging then
    if written then c.waitOps request reads ++ [answered (c.waitResponse request reads).2]
    else [.other (.connection false) trivial, .ended i]
  else [.ended i]

namespace IdSpace

theorem waitOps_run (request : IotmpMessage) (reads : List (ReadOutcome × SessionCode)) (s : IdSpace) :
    (Run.run step s (s.client.waitOps request reads)).client = (s.client.waitResponse request reads).1 ∧
      (Run.run step s (s.client.waitOps request reads)).outstanding = s.outstanding := by
  induction reads generalizing s with
  | nil => exact ⟨rfl, rfl⟩
  | cons read reads ih =>
    obtain ⟨outcome, code⟩ := read
    rw [Client.waitOps, Client.waitResponse]
    rcases consume (.waitResponse request true) outcome with m | ⟨success, payload⟩ | _ | _
    · have hstep := ih (s.step (.other (.message m code) trivial))
      simp only [Run.run_cons]
      rcases hm : s.client.handleMessage m code with ⟨c, _ | _⟩
      · simp [step, Client.tableStep, hm]
      · simpa [step, Client.tableStep, hm] using hstep
    · exact ⟨rfl, rfl⟩
    · exact ⟨rfl, rfl⟩
    · exact ⟨rfl, rfl⟩

/-- an exchange is a run in which the request waits until its end -/
theorem exchangeOps_run (s : IdSpace) {i : ℕ} (request : IotmpMessage) (written : Bool)
    (reads : List (ReadOutcome × SessionCode)) (answered : Call (Bool × Json) → IdOp) :
    Run.run step s (s.client.exchangeOps i request written reads answered) =
      if request.Logs s.client.logging then
        if written then
          (Run.run step s (s.client.waitOps request reads)).step (answered (s.client.waitResponse request reads).2)
        else (s.step (.other (.connection false) trivial)).step (.ended i)
      else s.step (.ended i) := by
  unfold Client.exchangeOps
  split_ifs
  · rw [Run.run_append]
    rfl
  · rfl
  · rfl

/-- the last request ends -/
theorem ended_last {s : IdSpace} {outstanding : List Request} {r : Request} (h : s.outstanding = outstanding ++ [r]) :
    s.step (.ended outstanding.length) = { s with outstanding := outstanding } := by
  simp [step, h, List.eraseIdx_append_of_length_le]

theorem confirmed_last {s : IdSpace} {outstanding : List Request} {streamId : UInt16} {eventId : UInt8}
    (h : s.outstanding = outstanding ++ [⟨streamId, some eventId⟩]) (responseData : Json) :
    (s.step (.confirmed outstanding.length responseData)).client =
        (s.client.initializeStream eventId streamId responseData).1 ∧
      (s.step (.confirmed outstanding.length responseData)).outstanding = outstanding := by
  simp [step, h, List.eraseIdx_append_of_length_le]

end IdSpace

/-- a round of `initialize_streams`, with `i` requests waiting -/
def Subscriber.roundOps (s : Subscriber) (i : ℕ) (eventId : UInt8) (x : Exchange) : List IdOp :=
  .draw (some eventId) x.streamId.toNat ::
    s.client.exchangeOps i ((s.configs eventId).request x.streamId) x.written x.reads fun
      | .returns (true, responseData) => .confirmed i responseData
      | _ => .ended i

/-- `initialize_streams` -/
def Subscriber.initializeOps (script : UInt8 → Exchange) (i : ℕ) : List UInt8 → Subscriber → List IdOp
  | [], _ => []
  | eventId :: eventIds, s =>
    s.roundOps i eventId (script eventId) ++
      if (s.initializeEvent eventId (script eventId)).2 then
        initializeOps script i eventIds (s.initializeEvent eventId (script eventId)).1
      else []

/-- `send_message_with_ack` -/
def Client.ackOps (c : Client) (i : ℕ) (message : IotmpMessage) (waitAck : Bool) (value : ℕ) (written : Bool)
    (reads : List (ReadOutcome × SessionCode)) : List IdOp :=
  if waitAck then
    if message.getStreamId = 0 then
      .draw none value :: c.exchangeOps i (message.setRandomStreamId value) written reads fun _ => .ended i
    else .given message.getStreamId :: c.exchangeOps i message written reads fun _ => .ended i
  else if message.Logs c.logging ∧ written = false then [.other (.connection false) trivial]
  else []

namespace IdSpace

theorem round_run (s : Subscriber) (space : IdSpace) (hclient : space.client = s.client) (eventId : UInt8)
    (x : Exchange) :
    (Run.run step space (s.roundOps space.outstanding.length eventId x)).client =
        (s.initializeEvent eventId x).1.client ∧
      (Run.run step space (s.roundOps space.outstanding.length eventId x)).outstanding = space.outstanding := by
  have hid : UInt16.ofNat x.streamId.toNat = x.streamId := UInt16.ofNat_toNat
  set request := (s.configs eventId).request x.streamId with hrequest
  set drawn := space.step (.draw (some eventId) x.streamId.toNat) with hdrawn
  have hwaiting : drawn.outstanding = space.outstanding ++ [⟨x.streamId, some eventId⟩] := by
    rw [hdrawn, step, hid]
  have hsame : drawn.client = s.client := hclient
  have hrun : Run.run step space (s.roundOps space.outstanding.length eventId x) =
      Run.run step drawn (drawn.client.exchangeOps space.outstanding.length request x.written x.reads fun
        | .returns (true, responseData) => .confirmed space.outstanding.length responseData
        | _ => .ended space.outstanding.length) := by
    rw [hsame]
    rfl
  rw [hrun, exchangeOps_run, Subscriber.initializeEvent, ← hrequest]
  simp only [hsame]
  obtain ⟨hwaited, hstill⟩ := waitOps_run request x.reads drawn
  rw [hsame] at hwaited hstill
  rw [hwaiting] at hstill
  have hended : ∀ t : IdSpace, t.outstanding = space.outstanding ++ [⟨x.streamId, some eventId⟩] →
      (t.step (.ended space.outstanding.length)).client = t.client ∧
        (t.step (.ended space.outstanding.length)).outstanding = space.outstanding := by
    intro t ht
    rw [ended_last ht]
    exact ⟨rfl, rfl⟩
  have hkept : request.Logs (s.setParams eventId .null).client.logging ↔ request.Logs s.client.logging := Iff.rfl
  by_cases hlogs : request.Logs s.client.logging
  swap
  · rw [if_neg hlogs, if_neg (mt hkept.1 hlogs)]
    exact ⟨(hended drawn hwaiting).1.trans hsame, (hended drawn hwaiting).2⟩
  rw [if_pos hlogs, if_pos (hkept.2 hlogs), Subscriber.setParams_client]
  by_cases hwritten : x.written = true
  swap
  · rw [if_neg hwritten, if_neg hwritten]
    obtain ⟨hclient', houtstanding'⟩ := hended (drawn.step (.other (.connection false) trivial)) hwaiting
    refine ⟨hclient'.trans ?_, houtstanding'⟩
    show { drawn.client with connected := false } = { s.client with connected := false }
    rw [hsame]
  rw [if_pos hwritten, if_pos hwritten]
  rcases hw : s.client.waitResponse request x.reads with ⟨c, ⟨success, responseData⟩ | _⟩
  · rw [hw] at hwaited
    rcases success with _ | _
    · exact ⟨(hended _ hstill).1.trans hwaited, (hended _ hstill).2⟩
    · obtain ⟨hclient', houtstanding'⟩ := confirmed_last hstill responseData
      refine ⟨hclient'.trans ?_, houtstanding'⟩
      rw [hwaited]
      simp only [if_true, hrequest, Subscriber.request_streamId]
      rcases c.initializeStream eventId x.streamId responseData with ⟨c', _ | _⟩
      · rfl
      · rfl
  · rw [hw] at hwaited
    exact ⟨(hended _ hstill).1.trans hwaited, (hended _ hstill).2⟩

theorem initializeEvents_run (script : UInt8 → Exchange) (eventIds : List UInt8) (s : Subscriber) (space : IdSpace)
    (hclient : space.client = s.client) :
    (Run.run step space (Subscriber.initializeOps script space.outstanding.length eventIds s)).client =
        (Subscriber.initializeEvents script eventIds s).1.client ∧
      (Run.run step space (Subscriber.initializeOps script space.outstanding.length eventIds s)).outstanding =
        space.outstanding := by
  induction eventIds generalizing s space with
  | nil => exact ⟨hclient, rfl⟩
  | cons eventId eventIds ih =>
    obtain ⟨hround, hwaiting⟩ := round_run s space hclient eventId (script eventId)
    rw [Subscriber.initializeOps, Subscriber.initializeEvents, Run.run_append]
    rcases hs : s.initializeEvent eventId (script eventId) with ⟨s', _ | _⟩
    · rw [hs] at hround
      exact ⟨hround, hwaiting⟩
    · rw [hs] at hround
      have hrest := ih s' (Run.run step space (s.roundOps space.outstanding.length eventId (script eventId))) hround
      rw [hwaiting] at hrest
      exact hrest

/-- **`initialize_streams` is a run**, in which every event draws an id. -/
theorem initializeStreams_run (s : Subscriber) (script : UInt8 → Exchange) (space : IdSpace)
    (hclient : space.client = s.client) :
    (Run.run step space (Subscriber.initializeOps script space.outstanding.length s.eventIds s)).client =
      (s.initializeStreams script).1.client :=
  (initializeEvents_run script s.eventIds s space hclient).1

/-- **After `initialize_streams`** the id of every subscribed event leads to the event, if every value of `rand()` was
free and no START_STREAM met meanwhile opens the stream of one. -/
theorem initializeStreams_routed (s : Subscriber) (script : UInt8 → Exchange) {space : IdSpace} (h : space.Sound)
    (hclient : space.client = s.client)
    (hops : Run.Steps step Avoids space
      (Subscriber.initializeOps script space.outstanding.length s.eventIds s)) :
    ∀ eventId ∈ (Run.run step space (Subscriber.initializeOps script space.outstanding.length s.eventIds s)).subscribed,
      ∃ event config, (s.initializeStreams script).1.client.events.get eventId = some event ∧
        (s.initializeStreams script).1.client.streams.get event.streamId = some config ∧
          config.resource = some (.event eventId) := by
  have hsound := Run.invariant (p := Avoids) (fun _ op hs hop => Sound.step hs op hop) space _ h hops
  intro eventId he
  obtain ⟨streamId, ⟨event, hget, rfl⟩, config, hconfig, hresource⟩ := hsound.routed eventId he
  rw [initializeStreams_run s script space hclient] at hget hconfig
  exact ⟨event, config, hget, hconfig, hresource⟩

/-- **`send_message_with_ack` is a run**, in which a request without an id draws one. -/
theorem sendMessageWithAck_run (s : IdSpace) (message : IotmpMessage) (waitAck : Bool) (value : ℕ) (written : Bool)
    (reads : List (ReadOutcome × SessionCode)) :
    (Run.run step s (s.client.ackOps s.outstanding.length message waitAck value written reads)).client =
      (s.client.sendMessageWithAck message waitAck value written reads).1 := by
  -- the exchange, once the request has its id
  have hexchange : ∀ (drawn : IdSpace) (request : IotmpMessage), drawn.client = s.client →
      (Run.run step drawn
        (s.client.exchangeOps s.outstanding.length request written reads fun _ => .ended s.outstanding.length)).client =
      if request.Logs s.client.logging then
        if written then (s.client.waitResponse request reads).1 else { s.client with connected := false }
      else s.client := by
    intro drawn request hdrawn
    rw [← hdrawn, exchangeOps_run]
    split_ifs
    · exact (waitOps_run request reads drawn).1
    · rfl
    · rfl
  have hresult : ∀ request : IotmpMessage,
      (match s.client.waitResponse request reads with
        | (c, .throws) => (c, .throws)
        | (c, .returns (success, _)) => (c, .returns success) : Client × Call Bool).1 =
      (s.client.waitResponse request reads).1 := by
    intro request
    rcases s.client.waitResponse request reads with ⟨c, ⟨success, payload⟩ | _⟩
    · rfl
    · rfl
  unfold Client.ackOps Client.sendMessageWithAck
  cases waitAck with
  | false =>
    by_cases hlogs : message.Logs s.client.logging
    · cases written with
      | false => simp [hlogs, step, Client.tableStep]
      | true => simp [hlogs]
    · simp [hlogs]
  | true =>
    by_cases hid : message.getStreamId = 0
    · simp only [hid, and_self, if_true, Run.run_cons]
      rw [hexchange (s.step (.draw none value)) _ rfl]
      split_ifs
      · exact (hresult _).symm
      · rfl
      · rfl
    · simp only [hid, and_false, if_true, if_false, Run.run_cons]
      rw [hexchange (s.step (.given message.getStreamId)) _ rfl]
      split_ifs
      · exact (hresult _).symm
      · rfl
      · rfl

end IdSpace

end Iotmp
