/-
Server events and their parameters (`iotmp_server_event.hpp`; `client.hpp`: the four calls that create an event,
`initialize_streams`, `wait_response`).

On every connection `initialize_streams` subscribes the events one by one. It swaps the parameters of an event into the
START_STREAM request and, at the end of the round, back.

- `Subscriber`: a client, and what its events have beyond a resource.
- `Subscription`, `subscribe`: `topic_publish_stream`, `topic_subscribe_stream`, `property_stream`, `event_subscribe`.
- `Exchange`: what one round meets: the random id, whether the socket takes the request, what is read while waiting. The
  connection is gone once the reads are used up.
- `params_kept_iff`: a call of `initialize_streams` leaves all parameters as they were exactly if every event it comes
  to has none, or its request is written and nothing throws until the end of its round. `reconnections_iff`: the same
  for a sequence of connections.
- Counterexample `write_failure_loses_params`.
-/
import Mathlib.Tactic
import Iotmp.Client.ReadMessage
import Iotmp.Client.References

namespace Iotmp

/-- `server::run::SUBSCRIBE_EVENT` -/
def SUBSCRIBE_EVENT : UInt32 := 0x08

/-- what an `iotmp_server_event` has beyond a resource -/
structure EventConfig where
  resource : UInt32 := SUBSCRIBE_EVENT
  params : Json := .null

structure Subscriber where
  client : Client
  /-- of the events in `client.events` -/
  configs : UInt8 → EventConfig := fun _ => {}

/-! ## Subscriptions -/

/-- `params[key] = value`: a type error on anything but an object or null, after which nothing more is assigned -/
def assign (key : String) (value : Json) : Json × Bool → Json × Bool
  | (.null, true) => (.object [(text key, value)], true)
  | (.object ms, true) => (.object (SortedMap.insert (text key) value ms), true)
  | (params, _) => (params, false)

/-- `params[outer][key] = value` -/
def assignIn (outer key : String) (value : Json) : Json × Bool → Json × Bool
  | (.null, true) => (.object [(text outer, .object [(text key, value)])], true)
  | (.object ms, true) =>
    let inner := assign key value ((SortedMap.find (text outer) ms).getD .null, true)
    (.object (SortedMap.insert (text outer) inner.1 ms), inner.2)
  | (params, _) => (params, false)

/-- a call that creates an event -/
inductive Subscription where
  | topicPublishStream (topic : Bytes) (qos : UInt8) (retained : Bool)
  | topicSubscribeStream (topic : Bytes) (qos : UInt8)
  | propertyStream (property : Bytes) (fetchAtSubscription : Bool)
  | eventSubscribe (eventName : Bytes)

/-- what the call assigns to the event's parameters; false if one of the assignments throws -/
def Subscription.assignments (params : Json) : Subscription → Json × Bool
  | .topicPublishStream topic qos retained =>
    let p := assign "event" (.string (text "device_topic_publish")) (params, true)
    let p := assign "scope" (.string (text "publish")) p
    let p := assign "topic" (.string topic) p
    let p := if qos ≠ 0 then assign "qos" (.numberUnsigned qos.toUInt64) p else p
    if retained then assign "retained" (.boolean retained) p else p
  | .topicSubscribeStream topic qos =>
    let p := assign "event" (.string (text "device_topic_publish")) (params, true)
    let p := assign "scope" (.string (text "subscribe")) p
    let p := assign "topic" (.string topic) p
    if qos ≠ 0 then assign "qos" (.numberUnsigned qos.toUInt64) p else p
  | .propertyStream property fetchAtSubscription =>
    let p := assign "event" (.string (text "device_property_update")) (params, true)
    let p := if fetchAtSubscription then assign "current" (.boolean true) p else p
    assignIn "filters" "property" (.string property) p
  | .eventSubscribe eventName => assign "event" (.string eventName) (params, true)

namespace Subscriber

/-- the event under an id, as `events_[event_id]` finds or creates it -/
def config (s : Subscriber) (eventId : UInt8) : EventConfig :=
  if (s.client.events.get eventId).isSome then s.configs eventId else {}

def setParams (s : Subscriber) (eventId : UInt8) (params : Json) : Subscriber :=
  { s with configs := Function.update s.configs eventId { s.configs eventId with params := params } }

/-- the id of the event that the call returns -/
def subscribe (s : Subscriber) (call : Subscription) : Subscriber × Call UInt8 :=
  let eventId := s.client.nextEventId
  let assigned := call.assignments (s.config eventId).params
  ({ client := s.client.eventSubscribe id
     configs := Function.update s.configs eventId { resource := SUBSCRIBE_EVENT, params := assigned.1 } },
    if assigned.2 then .returns eventId else .throws)

end Subscriber

/-! ## initialize_streams -/

/-- `wait_response(request, &payload)`, on what `read_message` gives until the connection is gone -/
def Client.waitResponse (request : IotmpMessage) :
    Client → List (ReadOutcome × SessionCode) → Client × Call (Bool × Json)
  | c, [] => (c, .returns (false, .null))
  | c, (outcome, code) :: reads =>
    match consume (.waitResponse request true) outcome with
    | .throws => (c, .throws)
    | .disconnected => (c, .returns (false, .null))
    | .answer success payload => (c, .returns (success, payload.getD .null))
    | .handle m =>
      match c.handleMessage m code with
      | (c, false) => (c, .throws)
      | (c, true) => waitResponse request c reads

structure Exchange where
  /-- the value of `set_random_stream_id` -/
  streamId : UInt16
  written : Bool := true
  reads : List (ReadOutcome × SessionCode) := []

/-- the START_STREAM request of an event -/
def EventConfig.request (config : EventConfig) (streamId : UInt16) : IotmpMessage :=
  ((IotmpMessage.withStreamId streamId .startStream).setField Field.RESOURCE
    (.numberUnsigned config.resource.toUInt64)).setField Field.PARAMETERS config.params

namespace Subscriber

/-- a round of `initialize_streams`; false if an exception leaves it -/
def initializeEvent (s : Subscriber) (eventId : UInt8) (x : Exchange) : Subscriber × Bool :=
  let request := (s.configs eventId).request x.streamId
  -- the parameters are in the request now
  let s := s.setParams eventId .null
  if request.Logs s.client.logging then
    if x.written then
      match s.client.waitResponse request x.reads with
      | (c, .throws) => ({ s with client := c }, false)
      | (c, .returns (success, responseData)) =>
        match if success then c.initializeStream eventId request.getStreamId responseData else (c, true) with
        | (c, false) => ({ s with client := c }, false)
        | (c, true) => ({ s with client := c }.setParams eventId (request.get Field.PARAMETERS), true)
    else ({ s with client := { s.client with connected := false } }, true)
  else (s, false)

/-- the loop, over the events in the order of their ids -/
def initializeEvents (script : UInt8 → Exchange) : List UInt8 → Subscriber → Subscriber × Bool
  | [], s => (s, true)
  | eventId :: eventIds, s =>
    match s.initializeEvent eventId (script eventId) with
    | (s, false) => (s, false)
    | (s, true) => initializeEvents script eventIds s

def eventIds (s : Subscriber) : List UInt8 := s.client.events.entries.map Prod.fst

/-- false if an exception leaves it -/
def initializeStreams (s : Subscriber) (script : UInt8 → Exchange) : Subscriber × Bool :=
  initializeEvents script s.eventIds s

end Subscriber

/-! ## When the parameters come back -/

/-- nothing throws while `wait_response` reads -/
def Client.Undisturbed (request : IotmpMessage) : Client → List (ReadOutcome × SessionCode) → Prop
  | _, [] => True
  | c, (outcome, code) :: reads =>
    match consume (.waitResponse request true) outcome with
    | .throws => False
    | .handle m => (c.handleMessage m code).2 = true ∧ Undisturbed request (c.handleMessage m code).1 reads
    | _ => True

theorem Client.undisturbed_iff (request : IotmpMessage) (c : Client) (reads : List (ReadOutcome × SessionCode)) :
    c.Undisturbed request reads ↔ (c.waitResponse request reads).2 ≠ .throws := by
  induction reads generalizing c with
  | nil => simp [Undisturbed, waitResponse]
  | cons read reads ih =>
    obtain ⟨outcome, code⟩ := read
    rw [Undisturbed, waitResponse]
    rcases consume (.waitResponse request true) outcome with m | ⟨success, payload⟩ | _ | _
    · simp only
      rcases hm : c.handleMessage m code with ⟨c', _ | _⟩
      · simp
      · simpa using ih c'
    · simp
    · simp
    · simp

namespace Subscriber

/-- the parameters of an event are swapped back at the end of its round: its request is logged and written, nothing
throws while the client waits, and the callback does not throw on the data of an OK -/
structure Restores (s : Subscriber) (eventId : UInt8) (x : Exchange) : Prop where
  logged : ((s.configs eventId).request x.streamId).Logs s.client.logging
  written : x.written = true
  waited : s.client.Undisturbed ((s.configs eventId).request x.streamId) x.reads
  ran : ∀ c responseData,
    s.client.waitResponse ((s.configs eventId).request x.streamId) x.reads = (c, .returns (true, responseData)) →
      (c.initializeStream eventId x.streamId responseData).2 = true

theorem request_streamId (config : EventConfig) (streamId : UInt16) :
    (config.request streamId).getStreamId = streamId := by
  rw [EventConfig.request, IotmpMessage.getStreamId_setField_ne _ _ (by decide),
    IotmpMessage.getStreamId_setField_ne _ _ (by decide), IotmpMessage.getStreamId_withStreamId]

theorem request_params (config : EventConfig) (streamId : UInt16) :
    (config.request streamId).get Field.PARAMETERS = config.params := by
  rw [EventConfig.request, IotmpMessage.get_setField, if_pos rfl]

@[simp] theorem setParams_client (s : Subscriber) (eventId : UInt8) (params : Json) :
    (s.setParams eventId params).client = s.client := rfl

theorem setParams_self (s : Subscriber) (eventId : UInt8) (params : Json) :
    (s.setParams eventId params).configs eventId = { s.configs eventId with params := params } :=
  Function.update_self ..

theorem setParams_ne (s : Subscriber) {eventId eventId' : UInt8} (params : Json) (h : eventId' ≠ eventId) :
    (s.setParams eventId params).configs eventId' = s.configs eventId' :=
  Function.update_of_ne h ..

theorem setParams_restored (s : Subscriber) (eventId : UInt8) (c : Client) :
    ({ s.setParams eventId .null with client := c }.setParams eventId (s.configs eventId).params).configs =
      s.configs := by
  simp [setParams]

/-- **A round** leaves the parameters as they were, or the event it is about without any. -/
theorem initializeEvent_configs (s : Subscriber) (eventId : UInt8) (x : Exchange) :
    s.Restores eventId x ∧ (s.initializeEvent eventId x).1.configs = s.configs ∨
      ¬ s.Restores eventId x ∧ (s.initializeEvent eventId x).1.configs = (s.setParams eventId .null).configs := by
  rw [initializeEvent]
  simp only [setParams_client, request_streamId, request_params]
  by_cases hlogs : ((s.configs eventId).request x.streamId).Logs s.client.logging
  swap
  · rw [if_neg hlogs]
    exact Or.inr ⟨fun hr => hlogs hr.logged, rfl⟩
  rw [if_pos hlogs]
  by_cases hwritten : x.written = true
  swap
  · rw [if_neg hwritten]
    exact Or.inr ⟨fun hr => hwritten hr.written, rfl⟩
  rw [if_pos hwritten]
  rcases hw : s.client.waitResponse ((s.configs eventId).request x.streamId) x.reads with ⟨c, ⟨success, data⟩ | _⟩
  · have hwaited : s.client.Undisturbed ((s.configs eventId).request x.streamId) x.reads := by
      rw [Client.undisturbed_iff, hw]
      simp
    rcases success with _ | _
    · refine Or.inl ⟨⟨hlogs, hwritten, hwaited, fun c' data' h => ?_⟩, s.setParams_restored eventId c⟩
      rw [hw] at h
      exact absurd h (by simp)
    · simp only [if_true]
      rcases hi : c.initializeStream eventId x.streamId data with ⟨c', _ | _⟩
      · refine Or.inr ⟨fun hr => ?_, rfl⟩
        have hran := hr.ran c data hw
        rw [hi] at hran
        exact absurd hran (by simp)
      · refine Or.inl ⟨⟨hlogs, hwritten, hwaited, fun c'' data' h => ?_⟩, s.setParams_restored eventId c'⟩
        rw [hw] at h
        obtain ⟨rfl, rfl⟩ : c = c'' ∧ data = data' := by simpa using h
        rw [hi]
  · exact Or.inr ⟨fun hr => (Client.undisturbed_iff _ _ _).1 hr.waited (congrArg Prod.snd hw), rfl⟩

/-- what the event has after its round is nothing, or what it had -/
theorem initializeEvent_params (s : Subscriber) (eventId : UInt8) (x : Exchange) :
    (s.initializeEvent eventId x).1.configs = s.configs ↔
      (s.configs eventId).params = .null ∨ s.Restores eventId x := by
  rcases s.initializeEvent_configs eventId x with ⟨hr, hc⟩ | ⟨hr, hc⟩
  · exact iff_of_true hc (Or.inr hr)
  · rw [hc]
    refine ⟨fun h => Or.inl ?_, fun h => ?_⟩
    · have hparams := congrArg EventConfig.params (congrFun h eventId)
      rw [setParams_self] at hparams
      exact hparams.symm
    · rcases h with h | h
      · funext eventId'
        by_cases he : eventId' = eventId
        · rw [he, setParams_self, ← h]
        · exact s.setParams_ne .null he
      · exact absurd h hr

/-- an event without parameters stays without -/
theorem initializeEvent_null (s : Subscriber) (eventId : UInt8) (x : Exchange) {eventId' : UInt8}
    (h : (s.configs eventId').params = .null) : ((s.initializeEvent eventId x).1.configs eventId').params = .null := by
  rcases s.initializeEvent_configs eventId x with ⟨-, hc⟩ | ⟨-, hc⟩
  · rw [hc]
    exact h
  · rw [hc]
    by_cases he : eventId' = eventId
    · rw [he, setParams_self]
    · rw [setParams_ne s .null he]
      exact h

theorem initializeEvents_null (script : UInt8 → Exchange) (eventIds : List UInt8) (s : Subscriber) {eventId : UInt8}
    (h : (s.configs eventId).params = .null) :
    ((initializeEvents script eventIds s).1.configs eventId).params = .null := by
  induction eventIds generalizing s with
  | nil => exact h
  | cons id eventIds ih =>
    have hround := s.initializeEvent_null id (script id) h
    rw [initializeEvents]
    rcases hs : s.initializeEvent id (script id) with ⟨s', _ | _⟩ <;> rw [hs] at hround
    · exact hround
    · exact ih s' hround

/-! ## The whole call -/

/-- **The condition**, at every event the loop comes to: it has no parameters, or they come back -/
def AllRestored (script : UInt8 → Exchange) : List UInt8 → Subscriber → Prop
  | [], _ => True
  | eventId :: eventIds, s =>
    ((s.configs eventId).params = .null ∨ s.Restores eventId (script eventId)) ∧
      ((s.initializeEvent eventId (script eventId)).2 = true →
        AllRestored script eventIds (s.initializeEvent eventId (script eventId)).1)

theorem initializeEvents_kept_iff (script : UInt8 → Exchange) (eventIds : List UInt8) (s : Subscriber) :
    (initializeEvents script eventIds s).1.configs = s.configs ↔ AllRestored script eventIds s := by
  induction eventIds generalizing s with
  | nil => exact iff_of_true rfl trivial
  | cons eventId eventIds ih =>
    rw [AllRestored, ← s.initializeEvent_params eventId (script eventId), initializeEvents]
    rcases hs : s.initializeEvent eventId (script eventId) with ⟨s', _ | _⟩
    · simp
    · simp only [forall_const]
      refine ⟨fun h => ?_, fun h => ((ih s').2 h.2).trans h.1⟩
      have hkept : s'.configs = s.configs := by
        -- parameters that are lost in this round do not come back in a later one
        have hround := s.initializeEvent_configs eventId (script eventId)
        rw [hs] at hround
        rcases hround with ⟨-, hc⟩ | ⟨-, hc⟩
        · exact hc
        · have hnull : (s'.configs eventId).params = .null := by
            rw [hc, setParams_self]
          have hlost := initializeEvents_null script eventIds s' hnull
          rw [h] at hlost
          have hparams := (s.initializeEvent_params eventId (script eventId)).2 (Or.inl hlost)
          rwa [hs] at hparams
      exact ⟨hkept, (ih s').1 (h.trans hkept.symm)⟩

/-- **Subscriptions survive a call of `initialize_streams`** exactly if every event it comes to has no parameters, or
its request is written and nothing throws until the end of its round. -/
theorem params_kept_iff (s : Subscriber) (script : UInt8 → Exchange) :
    (s.initializeStreams script).1.configs = s.configs ↔ AllRestored script s.eventIds s :=
  initializeEvents_kept_iff script s.eventIds s

/-- a connection -/
def reconnect (s : Subscriber) (script : UInt8 → Exchange) : Subscriber := (s.initializeStreams script).1

/-- **Every reconnection sends the same parameters** exactly if every call so far met the condition. -/
theorem reconnections_iff (s : Subscriber) (scripts : List (UInt8 → Exchange)) :
    (∀ scripts', scripts' <+: scripts → (Run.run reconnect s scripts').configs = s.configs) ↔
      Run.Steps reconnect (fun s script => AllRestored script s.eventIds s) s scripts := by
  refine Run.always_iff_steps (I := fun _ => True) (P := fun s' : Subscriber => s'.configs = s.configs)
    (fun _ _ _ => trivial) (fun s' script _ hs' => ?_) s scripts trivial rfl
  rw [← initializeEvents_kept_iff script s'.eventIds s', hs', reconnect, initializeStreams]

/-- a client with one event, a subscription to the topic `a` -/
def topicSubscriber : Subscriber :=
  (Subscriber.subscribe { client := {} } (.topicSubscribeStream (text "a") 0)).1

/-- **A write that fails loses the parameters**: the `continue` passes by the line that restores them. -/
theorem write_failure_loses_params :
    (topicSubscriber.initializeStreams fun _ => { streamId := 7, written := false }).1.configs ≠
      topicSubscriber.configs := by
  intro h
  have hempty := congrArg (fun configs => Resource.isEmpty (configs 1).params) h
  exact absurd hempty (by decide)

end Subscriber

end Iotmp
