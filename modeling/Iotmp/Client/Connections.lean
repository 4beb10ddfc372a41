/-
Runs over any number of connections (`client.hpp`): the client's tables, the write queue and the pool that runs RUN and
DESCRIBE handlers, none of which a reconnection clears.

- `Connections`: the client and its write path. `queued` labels every frame in `write_queue_` with its message and with
  the connection that was up when `send_message` queued it; `begun` is what `process_write_queue` began to write, on
  which connection; `opened` is which streams were opened on which connection.
- `Isolated`: everything written from the queue was queued while its connection was up, and stream data goes to a stream
  opened on that connection.
- `isolated`: it holds in every state of a run in which `write_queue_` and `streams_` are empty and no session is alive
  each time a connection comes up, and stream data that names a resource by its path is for an open stream.
Witness: `isolated_second`. Counterexample: `leftovers_written`.
-/
import Mathlib.Tactic
import Iotmp.Client.References
import Iotmp.Client.WritePath

namespace Iotmp

namespace Client

/-- `stream_resource(stream_id, data)`, with which a session sends; bytes are a binary value -/
def streamData (c : Client) (streamId : UInt16) (data : Json) : Client × Bool :=
  if c.connected then
    c.sendMessage ((IotmpMessage.setField { messageType := .streamData } Field.PAYLOAD data).setStreamId streamId)
  else (c, true)

/-- the resource a RUN or a DESCRIBE is dispatched to, whose handler runs on `resource_pool_` -/
def pooled (c : Client) (m : IotmpMessage) : Option (ResourceRef × IotmpMessage) :=
  if m.messageType = .run ∨ m.messageType = .describe then
    match c.resolve m with
    | .returns (some ref, request) => some (ref, request)
    | _ => none
  else none

end Client

/-- the fields of a message in the order of their numbers -/
def Outgoing.ofMessage (m : IotmpMessage) : Outgoing := ⟨m, m.fields.entries, List.Perm.refl _⟩

/-- a frame in `write_queue_` -/
structure Queued where
  message : IotmpMessage
  /-- the connection that was up when it was queued -/
  connection : Option ℕ

def Queued.frame (q : Queued) : Bytes := (Outgoing.ofMessage q.message).encoded

structure Connections where
  client : Client
  path : WritePath
  queued : List Queued := []
  begun : List (ℕ × Queued) := []
  opened : ℕ → List UInt16 := fun _ => []
  /-- the handlers that are running on the pool -/
  suspended : List (ResourceRef × IotmpMessage) := []

namespace Connections

/-! ## The steps -/

/-- before the first connection -/
def init (logging : Bool) : Connections where
  client := { connected := false, logging := logging }
  path := { logging := logging }

/-- the connection that is up -/
def up (s : Connections) : Option ℕ := if s.path.connected then some s.path.socket else none

/-- `send_message`, where the write path and the labels are concerned -/
def enqueue (s : Connections) (m : IotmpMessage) : Connections :=
  if m.Logs s.path.logging then
    { s with path := s.path.sendMessage (.ofMessage m), queued := s.queued ++ [⟨m, s.up⟩] }
  else s

/-- the client goes on to `c`; what it sent meanwhile is queued -/
def goesTo (s : Connections) (c : Client) : Connections :=
  (c.sent.drop s.client.sent.length).foldl enqueue { s with client := c }

def markOpened (s : Connections) (streamId : UInt16) : Connections :=
  { s with opened := Function.update s.opened s.path.socket (streamId :: s.opened s.path.socket) }

/-- `handle_message`; a RUN or a DESCRIBE is suspended where it is given to the pool -/
def message (s : Connections) (m : IotmpMessage) (code : SessionCode) : Connections :=
  match s.client.pooled m with
  | some handler => { s with suspended := s.suspended ++ [handler] }
  | none =>
    let s := if m.messageType = .startStream ∧ (s.client.target m).isSome then s.markOpened m.getStreamId else s
    s.goesTo (s.client.handleMessage m code).1

/-- the pool is done with a handler -/
def resume (s : Connections) (n : ℕ) : Connections :=
  match s.suspended[n]? with
  | none => s
  | some (ref, request) =>
    let s := { s with suspended := s.suspended.eraseIdx n }
    match s.client.deref ref with
    | none => s
    | some resource => s.goesTo (s.client.handleResource ref resource request {}).1

def subscribed (s : Connections) (eventId : UInt8) (streamId : UInt16) (responseData : Json) : Connections :=
  let s := if (s.client.events.get eventId).isSome then s.markOpened streamId else s
  s.goesTo (s.client.initializeStream eventId streamId responseData).1

def sessionData (s : Connections) (i : ℕ) (data : Json) : Connections :=
  match s.client.objects[i]? with
  | none => s
  | some o => if o.alive then s.goesTo (s.client.streamData o.streamId data).1 else s

def keepAlive (s : Connections) : Connections :=
  if s.client.connected then s.goesTo (s.client.sendMessage { messageType := .keepAlive }).1 else s

/-- an event of the write path; a frame that leaves the queue is begun to be written on the current connection -/
def transport (s : Connections) (e : WritePath.WriteEvent) : Connections :=
  let path := WritePath.step s.path e
  let s := if path.writeQueue.length < s.path.writeQueue.length then
      { s with
        queued := s.queued.tail
        begun := s.begun ++ (s.queued.head?.map fun q => (s.path.socket, q)).toList }
    else s
  { s with path := path, client := { s.client with connected := path.connected } }

inductive ConnectionEvent where
  | message (m : IotmpMessage) (code : SessionCode)
  | resume (n : ℕ)
  | finish (i : ℕ) (outcome : Call ExecResult)
  | release (i : ℕ)
  | sessionData (i : ℕ) (data : Json)
  | interval (due : UInt16 → Bool)
  | subscribed (eventId : UInt8) (streamId : UInt16) (responseData : Json)
  | register (path : Bytes) (configure : Resource → Resource)
  | erase (path : Bytes)
  | subscribe (configure : Resource → Resource)
  | keepAlive
  | writeMessage (m : Outgoing)
  | begin (i : ℕ)
  | put (i n : ℕ)
  | complete (i : ℕ)
  | fail (i : ℕ)
  | lost
  | connect
  | authenticated

def step (s : Connections) : ConnectionEvent → Connections
  | .message m code => s.message m code
  | .resume n => s.resume n
  | .finish i outcome => s.goesTo (Client.step s.client (.finish i outcome))
  | .release i => s.goesTo (Client.step s.client (.release i))
  | .sessionData i data => s.sessionData i data
  | .interval due => s.goesTo (s.client.streamIntervalRound due).1
  | .subscribed eventId streamId responseData => s.subscribed eventId streamId responseData
  | .register path configure => s.goesTo (s.client.registerResource path configure)
  | .erase path => s.goesTo (s.client.eraseResource path)
  | .subscribe configure => s.goesTo (s.client.eventSubscribe configure)
  | .keepAlive => s.keepAlive
  | .writeMessage m => s.transport (.writeMessage m)
  | .begin i => s.transport (.begin i)
  | .put i n => s.transport (.put i n)
  | .complete i => s.transport (.complete i)
  | .fail i => s.transport (.fail i)
  | .lost => s.transport .lost
  | .connect => s.transport .connect
  | .authenticated => s.transport .authenticated

abbrev run (s : Connections) (events : List ConnectionEvent) : Connections := Run.run step s events

/-! ## Isolation -/

/-- stream data is for one of these streams -/
def DataFor (streams : UInt16 → Prop) (m : IotmpMessage) : Prop := m.messageType = .streamData → streams m.getStreamId

/-- what is written on a connection from the queue was queued while it was up, and its stream data is for streams opened
on it -/
def Isolated (s : Connections) : Prop :=
  ∀ socket q, (socket, q) ∈ s.begun → q.connection = some socket ∧ DataFor (· ∈ s.opened socket) q.message

/-- nothing is left from an earlier connection, and stream data comes for open streams -/
def Clean (s : Connections) : ConnectionEvent → Prop
  | .authenticated =>
    s.path.connected = false →
      s.path.writeQueue = [] ∧ (∀ streamId, s.client.streams.get streamId = none) ∧
        ∀ o ∈ s.client.objects, o.alive = false
  | .message m _ =>
    m.messageType = .streamData → m.hasField Field.RESOURCE = true → m.getStreamId ∈ s.opened s.path.socket
  | _ => True

end Connections

/-! ## What the client sends -/

namespace Client

/-- the client sent messages that all satisfy `p`, and is as connected as before -/
structure Sends (p : IotmpMessage → Prop) (c c' : Client) : Prop where
  sent : ∃ more, c'.sent = c.sent ++ more ∧ ∀ m ∈ more, p m
  connected : c'.connected = c.connected

section

variable {p : IotmpMessage → Prop}

theorem OnlySends.sends {c c' c'' : Client} (h : OnlySends p c' c'') (hsent : c'.sent = c.sent)
    (hconnected : c'.connected = c.connected) : Sends p c c'' := by
  obtain ⟨more, rfl, hmore⟩ := h
  exact ⟨⟨more, by rw [← hsent], hmore⟩, hconnected⟩

theorem Sends.refl {c c' : Client} (hsent : c'.sent = c.sent) (hconnected : c'.connected = c.connected) :
    Sends p c c' := ⟨⟨[], by simp [hsent], by simp⟩, hconnected⟩

theorem Sends.trans {c c' c'' : Client} (h : Sends p c c') (h' : Sends p c' c'') : Sends p c c'' := by
  obtain ⟨⟨more, hsent, hmore⟩, hconnected⟩ := h
  obtain ⟨⟨more', hsent', hmore'⟩, hconnected'⟩ := h'
  refine ⟨⟨more ++ more', by rw [hsent', hsent, List.append_assoc], ?_⟩, hconnected'.trans hconnected⟩
  intro m hm
  rcases List.mem_append.1 hm with hm | hm
  · exact hmore m hm
  · exact hmore' m hm

end

end Client

namespace Connections

open Client

variable {ids : UInt16 → Prop}

theorem dataFor_of_type {m : IotmpMessage} (h : m.messageType ≠ .streamData) : DataFor ids m :=
  fun htype => absurd htype h

theorem dataFor_of_id {streamId : UInt16} (h : ids streamId) (m : IotmpMessage) (hm : m.getStreamId = streamId) :
    DataFor ids m := by
  intro _
  rw [hm]
  exact h

theorem openStream_sends (c : Client) (ref : ResourceRef) (request : IotmpMessage) :
    (c.openStream ref request).sent = c.sent ∧ (c.openStream ref request).connected = c.connected := by
  unfold openStream
  simp only
  split_ifs
  · unfold setResourceStreamId
    split <;> exact ⟨rfl, rfl⟩
  · exact ⟨rfl, rfl⟩

theorem closeStream_sends (c : Client) (ref : ResourceRef) (r : Resource) (streamId : UInt16) :
    (c.closeStream ref r streamId).sent = c.sent ∧ (c.closeStream ref r streamId).connected = c.connected := by
  unfold closeStream
  simp only [eraseStream]
  split_ifs
  · unfold setResourceStreamId
    split <;> exact ⟨rfl, rfl⟩
  · exact ⟨rfl, rfl⟩

theorem managerStop_sends (c : Client) (m : ManagerId) (streamId : UInt16) (stop : Call Unit) :
    Sends (DataFor ids) c (c.managerStop m streamId stop).1 := by
  unfold managerStop
  split
  · exact Sends.refl rfl rfl
  · simp only
    split_ifs
    · split
      · exact Sends.refl rfl rfl
      · exact Sends.refl rfl rfl
    · have hset : Sends (DataFor ids) c (c.setSession m streamId none) := Sends.refl rfl rfl
      have hstop : Sends (DataFor ids) _ ((c.setSession m streamId none).stopStream streamId).1 :=
        (stopStream_sends (c.setSession m streamId none) streamId fun _ => dataFor_of_type).sends rfl rfl
      split
      · rename_i c' hc
        rw [hc] at hstop
        exact hset.trans hstop
      · rename_i c' hc
        rw [hc] at hstop
        exact hset.trans hstop

/-- the echo of a START_STREAM, at once or when its session has started, is for its own stream -/
theorem handleStartStream_sends (c : Client) (ref : ResourceRef) (r : Resource) (request : IotmpMessage)
    (create : Call Bool) (hid : ids request.getStreamId) :
    Sends (DataFor ids) c (c.handleStartStream ref r request create).1 := by
  obtain ⟨hopen, hconn⟩ := openStream_sends c ref request
  unfold handleStartStream
  simp only
  split
  · unfold managerStart
    split
    · exact (answerStart_sends _ _ _ (dataFor_of_id hid)).sends hopen hconn
    · split
      · exact Sends.refl hopen hconn
      · exact (answerStart_sends _ _ _ (dataFor_of_id hid)).sends hopen hconn
      · exact Sends.refl hopen hconn
  · have hsend := sendMessage_sends (c.openStream ref request)
      (show DataFor ids (.withStreamId request.getStreamId .ok) from dataFor_of_type (by simp))
    split
    · rename_i c' hc
      rw [hc] at hsend
      exact hsend.sends hopen hconn
    · rename_i c' hc
      rw [hc] at hsend
      split_ifs
      · exact (hsend.trans (streamResource_sends c' r (dataFor_of_id hid))).sends hopen hconn
      · exact hsend.sends hopen hconn

theorem handleStopStream_sends (c : Client) (ref : ResourceRef) (r : Resource) (request : IotmpMessage)
    (stop : Call Unit) : Sends (DataFor ids) c (c.handleStopStream ref r request stop).1 := by
  obtain ⟨hclose, hconn⟩ := closeStream_sends c ref r request.getStreamId
  unfold handleStopStream
  simp only
  split
  · rename_i m _
    have hstop : Sends (DataFor ids) _
        ((c.closeStream ref r request.getStreamId).managerStop m request.getStreamId stop).1 :=
      managerStop_sends (c.closeStream ref r request.getStreamId) m request.getStreamId stop
    split
    · rename_i c' hc
      rw [hc] at hstop
      exact (Sends.refl hclose hconn).trans hstop
    · rename_i c' stopped hc
      rw [hc] at hstop
      have htype : ((ExecResult.ofBool stopped).message.setStreamId request.getStreamId).messageType ≠ .streamData := by
        rcases (ExecResult.ofBool stopped).answers with h | h
        · simp [h]
        · simp [h]
      exact ((Sends.refl hclose hconn).trans hstop).trans ((sendMessage_sends c' (dataFor_of_type htype)).sends rfl rfl)
  · exact (sendMessage_sends _ (dataFor_of_type (by simp))).sends hclose hconn

/-- **Handling a message** sends stream data for the message's own stream only, if it opens or feeds one. -/
theorem handleMessage_sends (c : Client) (m : IotmpMessage) (code : SessionCode)
    (hid : m.messageType = .startStream ∨ m.messageType = .streamData → (c.target m).isSome → ids m.getStreamId) :
    Sends (DataFor ids) c (c.handleMessage m code).1 := by
  have hrequest : Sends (DataFor ids) c (c.handleResourceRequest m code).1 := by
    unfold handleResourceRequest
    rcases hr : c.resolve m with ⟨_ | ref, request⟩ | _
    · exact (handleNoResource_sends c request fun _ => dataFor_of_type).sends rfl rfl
    · rcases hd : c.deref ref with _ | r
      · simp only [hd]
        exact Sends.refl rfl rfl
      · obtain ⟨htype, hsame⟩ := resolve_kept hr
        have htarget : (c.target m).isSome := by
          rw [target_eq_some.2 ⟨request, hr, hd⟩]
          rfl
        simp only [hd, handleResource, htype]
        split
        · exact (handleRun_sends c r request fun _ => dataFor_of_type).sends rfl rfl
        · exact (handleDescribe_sends c r request fun _ => dataFor_of_type).sends rfl rfl
        · rename_i hm
          exact handleStartStream_sends c ref r request _ (hsame ▸ hid (.inl hm) htarget)
        · exact handleStopStream_sends c ref r request _
        · rename_i hm
          have hids : ids request.getStreamId := hsame ▸ hid (.inr hm) htarget
          exact (handleStreamData_sends c r request (dataFor_of_id hids)).sends rfl rfl
        · exact Sends.refl rfl rfl
    · exact Sends.refl rfl rfl
  unfold handleMessage
  split
  all_goals first | exact hrequest | exact Sends.refl rfl rfl

theorem finish_sends (c : Client) (i : ℕ) (outcome : Call ExecResult)
    (hid : ∀ o, c.objects[i]? = some o → o.phase = .starting → ids o.streamId) :
    Sends (DataFor ids) c (Client.step c (.finish i outcome)) := by
  rw [Client.step]
  split_ifs with hstarting
  · obtain ⟨o, ho, hphase⟩ := hstarting
    have hmem := hid o ho hphase
    unfold finishStart
    rw [ho]
    cases outcome with
    | throws => exact Sends.refl rfl rfl
    | returns result =>
      obtain ⟨sessions, heq⟩ := registerSession_eq c i o
      have hregister : (c.registerSession i o).sent = c.sent ∧ (c.registerSession i o).connected = c.connected := by
        rw [heq]
        exact ⟨rfl, rfl⟩
      simp only
      split_ifs
      · exact (answerStart_sends _ _ _ (dataFor_of_id hmem)).sends hregister.1 hregister.2
      · exact (answerStart_sends _ _ _ (dataFor_of_id hmem)).sends rfl rfl
  · exact Sends.refl rfl rfl

theorem release_sends (c : Client) (i : ℕ) : Sends (DataFor ids) c (Client.step c (.release i)) := by
  rw [Client.step]
  split_ifs
  · unfold endSession
    split
    · exact Sends.refl rfl rfl
    · simp only
      split_ifs
      · have hended : Sends (DataFor ids) c (c.modifySession i fun o => { o with alive := false }) := Sends.refl rfl rfl
        exact hended.trans (managerStop_sends _ _ _ _)
      · exact Sends.refl rfl rfl
  · exact Sends.refl rfl rfl

theorem initializeStream_sends (c : Client) (eventId : UInt8) (streamId : UInt16) (responseData : Json) :
    Sends (DataFor ids) c (c.initializeStream eventId streamId responseData).1 := by
  have hset : Sends (DataFor ids) c ((c.setStream streamId { resource := some (.event eventId) }).setResourceStreamId
      (.event eventId) streamId) := by
    unfold setResourceStreamId
    split <;> exact Sends.refl rfl rfl
  unfold initializeStream
  split
  · exact Sends.refl rfl rfl
  · simp only
    split_ifs
    · exact hset
    · split
      · exact hset
      · exact hset

/-! ## The invariant -/

/-- a stream that may be used now: if a connection is up, it was opened on it -/
def OpenNow (s : Connections) (streamId : UInt16) : Prop :=
  s.path.connected = true → streamId ∈ s.opened s.path.socket

structure Sound (s : Connections) : Prop where
  labels : s.queued.map Queued.frame = s.path.writeQueue
  connected : s.client.connected = s.path.connected
  begun : s.Isolated
  queued : s.path.connected = true → ∀ q ∈ s.queued, q.connection = some s.path.socket
  data : ∀ q ∈ s.queued, DataFor s.OpenNow q.message
  streams : ∀ streamId config, s.client.streams.get streamId = some config → s.OpenNow streamId
  sessions : ∀ o ∈ s.client.objects, o.alive = true → s.OpenNow o.streamId
  /-- a starting session is alive -/
  starting : ∀ o ∈ s.client.objects, o.phase = .starting → o.alive = true
  suspended : ∀ handler ∈ s.suspended, handler.2.messageType = .run ∨ handler.2.messageType = .describe

theorem sendMessage_path (path : WritePath) (m : Outgoing) (h : m.message.Logs path.logging) :
    (path.sendMessage m).writeQueue = path.writeQueue ++ [m.encoded] ∧ (path.sendMessage m).connected = path.connected ∧
      (path.sendMessage m).socket = path.socket := by
  rcases hflag : path.writeInProgress with _ | _
  · rw [WritePath.sendMessage_spawned h hflag]
    exact ⟨rfl, rfl, rfl⟩
  · rw [WritePath.sendMessage_queued h hflag]
    exact ⟨rfl, rfl, rfl⟩

/-- **Queueing a message** -/
theorem Sound.enqueue {s : Connections} (h : s.Sound) {m : IotmpMessage} (hm : DataFor s.OpenNow m) :
    (s.enqueue m).Sound := by
  unfold Connections.enqueue
  split_ifs with hlogs
  · obtain ⟨hqueue, hconn, hsock⟩ := sendMessage_path s.path (.ofMessage m) hlogs
    have hopen : ∀ queued,
        OpenNow { s with path := s.path.sendMessage (.ofMessage m), queued := queued } = s.OpenNow := by
      intro queued
      funext streamId
      simp only [OpenNow, hconn, hsock]
    exact
      { labels := by
          simp only [hqueue, List.map_append, h.labels]
          rfl
        connected := h.connected.trans hconn.symm
        begun := h.begun
        queued := by
          simp only [hconn, hsock]
          intro hup q hq
          rcases List.mem_append.1 hq with hq | hq
          · exact h.queued hup q hq
          · rw [List.mem_singleton.1 hq]
            simp [up, hup]
        data := by
          rw [hopen]
          intro q hq
          rcases List.mem_append.1 hq with hq | hq
          · exact h.data q hq
          · rw [List.mem_singleton.1 hq]
            exact hm
        streams := by
          rw [hopen]
          exact h.streams
        sessions := by
          rw [hopen]
          exact h.sessions
        starting := h.starting
        suspended := h.suspended }
  · exact h

theorem openNow_enqueue (s : Connections) (m : IotmpMessage) : (s.enqueue m).OpenNow = s.OpenNow := by
  unfold Connections.enqueue
  split_ifs with hlogs
  · obtain ⟨-, hconn, hsock⟩ := sendMessage_path s.path (.ofMessage m) hlogs
    funext streamId
    simp only [OpenNow, hconn, hsock]
  · rfl

theorem Sound.enqueueAll {s : Connections} (h : s.Sound) (more : List IotmpMessage)
    (hmore : ∀ m ∈ more, DataFor s.OpenNow m) : (more.foldl Connections.enqueue s).Sound := by
  induction more generalizing s with
  | nil => exact h
  | cons m more ih =>
    apply ih (h.enqueue (hmore m List.mem_cons_self))
    intro m' hm'
    rw [openNow_enqueue]
    exact hmore m' (List.mem_cons_of_mem m hm')

/-- **A step of the client** that sends stream data for open streams, and adds none but open streams and their
sessions. -/
theorem Sound.goesTo {s : Connections} (h : s.Sound) {c : Client} (hsends : Sends (DataFor s.OpenNow) s.client c)
    (hstreams : ∀ streamId config, c.streams.get streamId = some config →
      s.OpenNow streamId ∨ s.client.streams.get streamId = some config)
    (hsessions : ∀ o ∈ c.objects,
      (o.phase = .starting → o.alive = true) ∧ (o.alive = true → s.OpenNow o.streamId)) : (s.goesTo c).Sound := by
  have hclient : ({ s with client := c } : Connections).Sound :=
    { h with
      connected := hsends.connected.trans h.connected
      streams := fun streamId config hget =>
        (hstreams streamId config hget).elim id (h.streams streamId config)
      sessions := fun o ho => (hsessions o ho).2
      starting := fun o ho => (hsessions o ho).1 }
  apply hclient.enqueueAll
  intro m hm
  obtain ⟨more, hsent, hmore⟩ := hsends.sent
  rw [hsent, List.drop_left] at hm
  exact hmore m hm

/-! ## The sessions after a step of the client -/

/-- every session is for a stream that may be used, unless it has ended, and a starting one is alive -/
def SessionsOpen (ids : UInt16 → Prop) (c : Client) : Prop :=
  ∀ o ∈ c.objects, (o.phase = .starting → o.alive = true) ∧ (o.alive = true → ids o.streamId)

theorem SessionsOpen.same {c c' : Client} (h : SessionsOpen ids c) (hsame : SameTables c c') : SessionsOpen ids c' := by
  intro o ho
  rw [hsame.objects] at ho
  exact h o ho

theorem SessionsOpen.modifySession {c : Client} (h : SessionsOpen ids c) (i : ℕ) (f : Session → Session)
    (hf : ∀ o, c.objects[i]? = some o →
      ((f o).phase = .starting → (f o).alive = true) ∧
        ((f o).alive = true → o.alive = true ∧ (f o).streamId = o.streamId)) :
    SessionsOpen ids (c.modifySession i f) := by
  intro o' ho'
  obtain ⟨j, hj⟩ := List.mem_iff_getElem?.1 ho'
  rcases modify_cases hj with ⟨-, hkept⟩ | ⟨-, o, ho, rfl⟩
  · exact h o' (List.mem_of_getElem? hkept)
  · obtain ⟨hstarting, halive⟩ := hf o ho
    refine ⟨hstarting, ?_⟩
    intro hlive
    obtain ⟨hold, hid⟩ := halive hlive
    rw [hid]
    exact (h o (List.mem_of_getElem? ho)).2 hold

theorem SessionsOpen.entryStopped {c : Client} (h : SessionsOpen ids c) (m : ManagerId) (streamId : UInt16) (i : ℕ)
    (stop : Call Unit) : SessionsOpen ids (c.entryStopped m streamId i stop) := by
  have hset : SessionsOpen ids (c.setSession m streamId none) := h
  unfold Client.entryStopped
  split
  · apply hset.modifySession
    intro o ho
    exact ⟨(hset o (List.mem_of_getElem? ho)).1, fun halive => ⟨halive, rfl⟩⟩
  · exact hset

theorem SessionsOpen.start {c : Client} (h : SessionsOpen ids c) (request : IotmpMessage) (create : Call Bool)
    (hid : (c.target (request.setMessageType .startStream)).isSome → ids request.getStreamId) :
    SessionsOpen ids (Client.step c (.start request create)) := by
  rcases ht : c.target (request.setMessageType .startStream) with _ | ⟨ref, r⟩
  · exact h.same (start_same c request create ht)
  · obtain ⟨config, -, hsame | ⟨m, -, -, -, hsame⟩⟩ := start_cases c request create ht
    · exact SessionsOpen.same (c := c.setStream request.getStreamId config) h hsame
    · apply SessionsOpen.same _ hsame
      intro o ho
      rcases List.mem_append.1 ho with ho | ho
      · exact h o ho
      · rw [List.mem_singleton.1 ho]
        exact ⟨fun _ => rfl, fun _ => hid (by simp [ht])⟩

theorem SessionsOpen.stop {c : Client} (h : SessionsOpen ids c) (request : IotmpMessage) (stop : Call Unit) :
    SessionsOpen ids (Client.step c (.stop request stop)) := by
  have herase : SessionsOpen ids (c.eraseStream request.getStreamId) := h
  rcases ht : c.target (request.setMessageType .stopStream) with _ | ⟨ref, r⟩
  · exact h.same (stop_same c request stop ht)
  · rcases stop_cases c request stop ht with ⟨-, hsame⟩ | ⟨m, i, -, -, hsame⟩
    · exact herase.same hsame
    · exact (herase.entryStopped m _ i stop).same hsame

theorem SessionsOpen.finish {c : Client} (h : SessionsOpen ids c) (i : ℕ) (outcome : Call ExecResult) :
    SessionsOpen ids (Client.step c (.finish i outcome)) := by
  rw [Client.step]
  split_ifs with hstarting
  · obtain ⟨o, ho, -⟩ := hstarting
    rcases finish_cases c i o outcome ho with hsame | hsame
    · apply SessionsOpen.same _ hsame
      exact h.modifySession i _ fun o _ => ⟨by simp, fun halive => ⟨halive, rfl⟩⟩
    · apply SessionsOpen.same _ hsame
      obtain ⟨sessions, heq⟩ := registerSession_eq c i o
      have hset : SessionsOpen ids { c with sessions := sessions } := h
      rw [heq]
      exact hset.modifySession i _ fun o _ => ⟨by simp, fun halive => ⟨halive, rfl⟩⟩
  · exact h

theorem SessionsOpen.release {c : Client} (h : SessionsOpen ids c) (i : ℕ) :
    SessionsOpen ids (Client.step c (.release i)) := by
  rw [Client.step]
  split_ifs with hend
  · obtain ⟨o, ho, hphase, -⟩ := hend
    have hended : SessionsOpen ids (c.modifySession i fun o => { o with alive := false }) := by
      apply h.modifySession
      intro o' ho'
      rw [ho] at ho'
      obtain rfl := Option.some.inj ho'
      exact ⟨fun hstarting => absurd hstarting hphase, by simp⟩
    rcases endSession_cases c i o ho with ⟨-, hsame⟩ | ⟨j, -, -, hsame⟩
    · exact hended.same hsame
    · exact (hended.entryStopped _ _ _ _).same hsame
  · exact h

/-- handling a message opens a session only for the message's own stream -/
theorem SessionsOpen.message {c : Client} (h : SessionsOpen ids c) (m : IotmpMessage) (code : SessionCode)
    (hid : m.messageType = .startStream → (c.target m).isSome → ids m.getStreamId) :
    SessionsOpen ids (c.handleMessage m code).1 := by
  by_cases hstart : m.messageType = .startStream
  · have hm : m.setMessageType .startStream = m := IotmpMessage.setMessageType_of_messageType hstart
    rw [handleMessage_start c code hstart]
    apply h.start
    rw [hm]
    exact hid hstart
  · by_cases hstop : m.messageType = .stopStream
    · rw [handleMessage_stop c code hstop]
      exact h.stop m code.stop
    · exact h.same (handleMessage_same c m code hstart hstop)

/-- and an entry only for it -/
theorem streams_message {c : Client} (m : IotmpMessage) (code : SessionCode) {streamId : UInt16} {config : StreamConfig}
    (hget : (c.handleMessage m code).1.streams.get streamId = some config) :
    (m.messageType = .startStream ∧ (c.target m).isSome ∧ streamId = m.getStreamId) ∨
      c.streams.get streamId = some config := by
  by_cases hstart : m.messageType = .startStream
  · have hm : m.setMessageType .startStream = m := IotmpMessage.setMessageType_of_messageType hstart
    rw [handleMessage_start c code hstart] at hget
    rcases ht : c.target m with _ | ⟨ref, r⟩
    · rw [(start_same c m code.create (hm ▸ ht)).streams] at hget
      exact .inr hget
    · obtain ⟨config', -, hsame⟩ := start_streams c m code.create (hm ▸ ht)
      rw [hsame.streams] at hget
      simp only [setStream, SortedMap.get_set] at hget
      split_ifs at hget with heq
      · exact .inl ⟨hstart, rfl, heq⟩
      · exact .inr hget
  · by_cases hstop : m.messageType = .stopStream
    · have hm : m.setMessageType .stopStream = m := IotmpMessage.setMessageType_of_messageType hstop
      rw [handleMessage_stop c code hstop] at hget
      rcases ht : c.target m with _ | ⟨ref, r⟩
      · rw [(stop_same c m code.stop (hm ▸ ht)).streams] at hget
        exact .inr hget
      · rw [(stop_streams c m code.stop (hm ▸ ht)).streams] at hget
        simp only [eraseStream, SortedMap.get_remove] at hget
        split_ifs at hget
        exact .inr hget
    · rw [(handleMessage_same c m code hstart hstop).streams] at hget
      exact .inr hget

/-! ## One event -/

theorem Sound.sessionsOpen {s : Connections} (h : s.Sound) : SessionsOpen s.OpenNow s.client :=
  fun o ho => ⟨h.starting o ho, h.sessions o ho⟩

theorem Sound.markOpened {s : Connections} (h : s.Sound) (streamId : UInt16) : (s.markOpened streamId).Sound := by
  have hmore : ∀ socket id, id ∈ s.opened socket → id ∈ (s.markOpened streamId).opened socket := by
    intro socket id hid
    by_cases heq : socket = s.path.socket
    · simp only [Connections.markOpened, heq, Function.update_self]
      exact List.mem_cons_of_mem streamId (heq ▸ hid)
    · simpa only [Connections.markOpened, Function.update_of_ne heq] using hid
  have hopen : ∀ id, s.OpenNow id → (s.markOpened streamId).OpenNow id := fun id hid hup => hmore _ id (hid hup)
  exact
    { h with
      begun := fun socket q hq =>
        ⟨(h.begun socket q hq).1, fun htype => hmore socket _ ((h.begun socket q hq).2 htype)⟩
      data := fun q hq htype => hopen _ (h.data q hq htype)
      streams := fun id config hget => hopen id (h.streams id config hget)
      sessions := fun o ho halive => hopen _ (h.sessions o ho halive) }

theorem openNow_markOpened (s : Connections) (streamId : UInt16) : (s.markOpened streamId).OpenNow streamId := by
  intro _
  simp [Connections.markOpened]

/-- stream data that names no resource is for an entry of `streams_` -/
theorem streams_of_target {c : Client} {m : IotmpMessage} (hfield : m.hasField Field.RESOURCE = false)
    (htarget : (c.target m).isSome) : ∃ config, c.streams.get m.getStreamId = some config := by
  obtain ⟨⟨ref, r⟩, ht⟩ := Option.isSome_iff_exists.1 htarget
  obtain ⟨request, hr, -⟩ := target_eq_some.1 ht
  have hnone : m.fields.get Field.RESOURCE = none := by simpa [IotmpMessage.hasField] using hfield
  unfold resolve at hr
  simp only [hnone] at hr
  split at hr
  · rename_i ref' hstream
    split_ifs at hstream
    obtain ⟨config, hget, -⟩ := Option.bind_eq_some_iff.1 hstream
    exact ⟨config, hget⟩
  · exact absurd hr (by simp)

theorem Sound.handle {s : Connections} (h : s.Sound) (m : IotmpMessage) (code : SessionCode)
    (hstart : m.messageType = .startStream → (s.client.target m).isSome → s.OpenNow m.getStreamId)
    (hdata : m.messageType = .streamData → (s.client.target m).isSome → s.OpenNow m.getStreamId) :
    (s.goesTo (s.client.handleMessage m code).1).Sound := by
  apply h.goesTo
  · apply handleMessage_sends
    intro htype htarget
    rcases htype with htype | htype
    · exact hstart htype htarget
    · exact hdata htype htarget
  · intro streamId config hget
    rcases streams_message m code hget with ⟨htype, htarget, rfl⟩ | hold
    · exact .inl (hstart htype htarget)
    · exact .inr hold
  · exact h.sessionsOpen.message m code hstart

theorem Sound.message {s : Connections} (h : s.Sound) (m : IotmpMessage) (code : SessionCode)
    (hclean : s.Clean (.message m code)) : (s.message m code).Sound := by
  unfold Connections.message
  rcases hp : s.client.pooled m with _ | handler
  · simp only
    split_ifs with hopens
    · apply (h.markOpened m.getStreamId).handle
      · exact fun _ _ => openNow_markOpened s m.getStreamId
      · exact fun _ _ => openNow_markOpened s m.getStreamId
    · apply h.handle
      · exact fun htype htarget => absurd ⟨htype, htarget⟩ hopens
      · intro htype htarget
        rcases hfield : m.hasField Field.RESOURCE with _ | _
        · obtain ⟨config, hget⟩ := streams_of_target hfield htarget
          exact h.streams _ config hget
        · exact fun _ => hclean htype hfield
  · have htype : handler.2.messageType = .run ∨ handler.2.messageType = .describe := by
      unfold pooled at hp
      split_ifs at hp with hm
      split at hp
      · rename_i ref request hr
        rw [← Option.some.inj hp]
        simpa [(resolve_kept hr).1] using hm
      · exact absurd hp (by simp)
    refine { h with suspended := ?_ }
    intro handler' hh
    rcases List.mem_append.1 hh with hh | hh
    · exact h.suspended handler' hh
    · rw [List.mem_singleton.1 hh]
      exact htype

theorem Sound.resume {s : Connections} (h : s.Sound) (n : ℕ) : (s.resume n).Sound := by
  unfold Connections.resume
  rcases hn : s.suspended[n]? with _ | ⟨ref, request⟩
  · exact h
  · have hrest : ({ s with suspended := s.suspended.eraseIdx n } : Connections).Sound := by
      refine { h with suspended := ?_ }
      exact fun handler hh => h.suspended handler ((List.eraseIdx_sublist _ _).subset hh)
    have htype := h.suspended _ (List.mem_of_getElem? hn)
    simp only
    split
    · exact hrest
    · rename_i r _
      have hhandle : SameTables s.client (s.client.handleResource ref r request {}).1 ∧
          Sends (DataFor s.OpenNow) s.client (s.client.handleResource ref r request {}).1 := by
        unfold handleResource
        rcases htype with htype | htype
        · rw [htype]
          have hrun : OnlySends (DataFor s.OpenNow) _ _ :=
            handleRun_sends s.client r request fun _ => dataFor_of_type
          exact ⟨hrun.same, hrun.sends rfl rfl⟩
        · rw [htype]
          have hdescribe : OnlySends (DataFor s.OpenNow) _ _ :=
            handleDescribe_sends s.client r request fun _ => dataFor_of_type
          exact ⟨hdescribe.same, hdescribe.sends rfl rfl⟩
      obtain ⟨hsame, hsends⟩ := hhandle
      apply hrest.goesTo hsends
      · intro streamId config hget
        rw [hsame.streams] at hget
        exact .inr hget
      · exact hrest.sessionsOpen.same hsame

/-- at most the first frame leaves the queue, and then a connection is up; no connection comes up -/
structure PathStep (path path' : WritePath) : Prop where
  queue : path'.writeQueue = path.writeQueue ∨
    ∃ data, path.connected = true ∧ path.writeQueue = data :: path'.writeQueue
  up : path'.connected = true → path.connected = true ∧ path'.socket = path.socket

theorem PathStep.of_same {path path' : WritePath} (hqueue : path'.writeQueue = path.writeQueue)
    (hconn : path'.connected = path.connected) (hsock : path'.socket = path.socket) : PathStep path path' :=
  ⟨.inl hqueue, fun hup => ⟨hconn ▸ hup, hsock⟩⟩

theorem processWriteQueue_step (path : WritePath) (i : ℕ) : PathStep path (path.processWriteQueue i) := by
  rcases hq : path.writeQueue with _ | ⟨data, queue⟩
  · rw [WritePath.processWriteQueue_nil hq]
    exact .of_same rfl rfl rfl
  · rcases hup : (path.connected && decide (path.socket ≠ 0)) with _ | _
    · rw [WritePath.processWriteQueue_down hup]
      exact .of_same rfl rfl rfl
    · simp only [Bool.and_eq_true, decide_eq_true_eq] at hup
      rw [WritePath.processWriteQueue_cons hq hup.1 hup.2]
      exact ⟨.inr ⟨data, hup.1, hq⟩, fun hconn => ⟨hconn, rfl⟩⟩

/-- an event of the write path, unless it queues a frame or brings the connection up -/
theorem writeStep_cases (path : WritePath) (e : WritePath.WriteEvent) (hsend : ∀ m, e ≠ .sendMessage m)
    (hup : e ≠ .authenticated) : PathStep path (WritePath.step path e) := by
  cases e with
  | sendMessage m => exact absurd rfl (hsend m)
  | authenticated => exact absurd rfl hup
  | writeMessage m =>
    rw [WritePath.step, WritePath.writeMessage]
    split_ifs
    · exact .of_same rfl rfl rfl
    · exact .of_same rfl rfl rfl
  | begin i =>
    rw [WritePath.step]
    split_ifs
    · exact processWriteQueue_step path i
    · exact .of_same rfl rfl rfl
  | put i n =>
    rw [WritePath.step]
    split
    · split_ifs
      · exact .of_same rfl rfl rfl
      · exact .of_same rfl rfl rfl
    · exact .of_same rfl rfl rfl
  | complete i =>
    rw [WritePath.step]
    split
    · rename_i w _
      split_ifs
      · rw [WritePath.complete]
        split_ifs
        · have hwritten := processWriteQueue_step { path with completed := path.completed ++ [w.frame] } i
          exact ⟨hwritten.queue, hwritten.up⟩
        · exact .of_same rfl rfl rfl
      · exact .of_same rfl rfl rfl
    · exact .of_same rfl rfl rfl
  | fail i =>
    rw [WritePath.step]
    split
    · simp only [WritePath.fail]
      split_ifs
      · exact ⟨.inl rfl, fun hconn => absurd hconn (by simp [WritePath.setCoroutine])⟩
      · exact ⟨.inl rfl, fun hconn => absurd hconn (by simp [WritePath.setCoroutine])⟩
    · exact .of_same rfl rfl rfl
  | lost => exact ⟨.inl rfl, fun hconn => absurd hconn (by simp [WritePath.step])⟩
  | connect =>
    rw [WritePath.step]
    split_ifs with hconn
    · exact .of_same rfl rfl rfl
    · exact ⟨.inl rfl, fun hconn' => absurd hconn' hconn⟩

/-- what may be sent now may be sent after a step that brings nothing up -/
theorem openNow_of_up {s : Connections} {path : WritePath}
    (hup : path.connected = true → s.path.connected = true ∧ path.socket = s.path.socket) {streamId : UInt16}
    (h : s.OpenNow streamId) (hconn : path.connected = true) : streamId ∈ s.opened path.socket := by
  obtain ⟨hconn', hsock⟩ := hup hconn
  rw [hsock]
  exact h hconn'

/-- an event that leaves the queue alone -/
theorem Sound.transport_kept {s : Connections} (h : s.Sound) {e : WritePath.WriteEvent}
    (hstep : PathStep s.path (WritePath.step s.path e))
    (hqueue : (WritePath.step s.path e).writeQueue = s.path.writeQueue) : (s.transport e).Sound := by
  have hlen : ¬ (WritePath.step s.path e).writeQueue.length < s.path.writeQueue.length := by
    rw [hqueue]
    exact lt_irrefl _
  simp only [Connections.transport, hlen, if_false]
  exact
    { labels := h.labels.trans hqueue.symm
      connected := rfl
      begun := h.begun
      queued := fun hup q hq => by
        obtain ⟨hconn, hsock⟩ := hstep.up hup
        rw [hsock]
        exact h.queued hconn q hq
      data := fun q hq htype => openNow_of_up hstep.up (h.data q hq htype)
      streams := fun id config hget => openNow_of_up hstep.up (h.streams id config hget)
      sessions := fun o ho halive => openNow_of_up hstep.up (h.sessions o ho halive)
      starting := h.starting
      suspended := h.suspended }

/-- an event that takes the first frame of the queue begins to write it on the connection that is up -/
theorem Sound.transport_begun {s : Connections} (h : s.Sound) {e : WritePath.WriteEvent} {data : Bytes}
    (hstep : PathStep s.path (WritePath.step s.path e)) (hconn : s.path.connected = true)
    (hqueue : s.path.writeQueue = data :: (WritePath.step s.path e).writeQueue) : (s.transport e).Sound := by
  have hlabels := h.labels
  rw [hqueue] at hlabels
  obtain ⟨q, queued, hqs, hq, hrest⟩ := List.map_eq_cons_iff.1 hlabels
  have hlen : (WritePath.step s.path e).writeQueue.length < s.path.writeQueue.length := by
    rw [hqueue]
    exact Nat.lt_succ_self _
  have hmem : q ∈ s.queued := by
    rw [hqs]
    exact List.mem_cons_self
  have htail : ∀ q' ∈ queued, q' ∈ s.queued := by
    intro q' hq'
    rw [hqs]
    exact List.mem_cons_of_mem q hq'
  simp only [Connections.transport, hlen, if_true, hqs, List.tail_cons, List.head?_cons, Option.map_some,
    Option.toList_some]
  exact
    { labels := hrest
      connected := rfl
      begun := by
        intro socket q' hbegun
        rcases List.mem_append.1 hbegun with hbegun | hbegun
        · exact h.begun socket q' hbegun
        · obtain ⟨rfl, rfl⟩ : socket = s.path.socket ∧ q' = q := by simpa using hbegun
          exact ⟨h.queued hconn q' hmem, fun htype => h.data q' hmem htype hconn⟩
      queued := fun hup q' hq' => by
        obtain ⟨-, hsock⟩ := hstep.up hup
        rw [hsock]
        exact h.queued hconn q' (htail q' hq')
      data := fun q' hq' htype => openNow_of_up hstep.up (h.data q' (htail q' hq') htype)
      streams := fun id config hget => openNow_of_up hstep.up (h.streams id config hget)
      sessions := fun o ho halive => openNow_of_up hstep.up (h.sessions o ho halive)
      starting := h.starting
      suspended := h.suspended }

/-- **An event of the write path.** What it begins to write comes from the labelled queue of the connection that is
up. -/
theorem Sound.transport {s : Connections} (h : s.Sound) (e : WritePath.WriteEvent)
    (hstep : PathStep s.path (WritePath.step s.path e)) : (s.transport e).Sound := by
  rcases hstep.queue with hqueue | ⟨data, hconn, hqueue⟩
  · exact h.transport_kept hstep hqueue
  · exact h.transport_begun hstep hconn hqueue

/-- a connection comes up where nothing is left -/
theorem Sound.authenticated {s : Connections} (h : s.Sound) (hclean : s.Clean .authenticated) :
    (s.transport .authenticated).Sound := by
  rcases hconn : s.path.connected with _ | _
  · obtain ⟨hqueue, hstreams, hsessions⟩ := hclean hconn
    have hlabels := h.labels
    rw [hqueue, List.map_eq_nil_iff] at hlabels
    have hlen : ¬ (WritePath.step s.path .authenticated).writeQueue.length < s.path.writeQueue.length := lt_irrefl _
    simp only [Connections.transport, hlen, if_false]
    exact
      { labels := h.labels
        connected := rfl
        begun := h.begun
        queued := by simp [hlabels]
        data := by simp [hlabels]
        streams := fun id config hget => absurd (hget.symm.trans (hstreams id)) (by simp)
        sessions := fun o ho halive => absurd (halive.symm.trans (hsessions o ho)) (by simp)
        starting := h.starting
        suspended := h.suspended }
  · apply h.transport
    exact ⟨.inl rfl, fun _ => ⟨hconn, rfl⟩⟩

theorem Sound.subscribed {s : Connections} (h : s.Sound) (eventId : UInt8) (streamId : UInt16) (responseData : Json) :
    (s.subscribed eventId streamId responseData).Sound := by
  have hgo : ∀ t : Connections, t.Sound → ((t.client.events.get eventId).isSome → t.OpenNow streamId) →
      (t.goesTo (t.client.initializeStream eventId streamId responseData).1).Sound := by
    intro t ht hid
    rcases he : t.client.events.get eventId with _ | event
    · have hsame : (t.client.initializeStream eventId streamId responseData).1 = t.client := by
        unfold initializeStream
        rw [he]
      rw [hsame]
      exact ht.goesTo (Sends.refl rfl rfl) (fun _ _ hget => .inr hget) ht.sessionsOpen
    · have hopens : SameTables (t.client.setStream streamId { resource := some (.event eventId) })
          (t.client.initializeStream eventId streamId responseData).1 := by
        have hset := setResourceStreamId_same (t.client.setStream streamId { resource := some (.event eventId) })
          (.event eventId) streamId
        unfold initializeStream
        simp only [he]
        split_ifs
        · exact hset
        · split
          · exact hset
          · exact hset
      apply ht.goesTo (initializeStream_sends t.client eventId streamId responseData)
      · intro id config hget
        rw [hopens.streams] at hget
        simp only [setStream, SortedMap.get_set] at hget
        split_ifs at hget with heq
        · rw [heq]
          exact .inl (hid (by simp [he]))
        · exact .inr hget
      · have hset : SessionsOpen t.OpenNow (t.client.setStream streamId { resource := some (.event eventId) }) :=
          ht.sessionsOpen
        exact hset.same hopens
  unfold Connections.subscribed
  simp only
  split_ifs with hevent
  · exact hgo _ (h.markOpened streamId) fun _ => openNow_markOpened s streamId
  · exact hgo s h fun hsome => absurd hsome hevent

/-- the client has sent what may be sent, and its tables are as before -/
theorem Sound.goesTo_same {s : Connections} (h : s.Sound) {c : Client} (hsame : SameTables s.client c)
    (hsends : Sends (DataFor s.OpenNow) s.client c) : (s.goesTo c).Sound := by
  apply h.goesTo hsends
  · intro streamId config hget
    rw [hsame.streams] at hget
    exact .inr hget
  · exact h.sessionsOpen.same hsame

/-- the application has changed the resources -/
theorem Sound.goesTo_resources {s : Connections} (h : s.Sound) {c : Client} (hstreams : c.streams = s.client.streams)
    (hobjects : c.objects = s.client.objects) (hsent : c.sent = s.client.sent)
    (hconn : c.connected = s.client.connected) : (s.goesTo c).Sound := by
  apply h.goesTo (Sends.refl hsent hconn)
  · intro streamId config hget
    rw [hstreams] at hget
    exact .inr hget
  · rw [hobjects]
    exact h.sessionsOpen

/-- a living session has a stream of the connection that is up -/
theorem Sound.sessionData {s : Connections} (h : s.Sound) (i : ℕ) (data : Json) : (s.sessionData i data).Sound := by
  rw [Connections.sessionData]
  split
  · exact h
  · rename_i o ho
    split_ifs with halive
    · have hid := h.sessions o (List.mem_of_getElem? ho) halive
      have hdata : SameTables s.client (s.client.streamData o.streamId data).1 ∧
          Sends (DataFor s.OpenNow) s.client (s.client.streamData o.streamId data).1 := by
        unfold streamData
        split_ifs
        · exact ⟨sendMessage_same _ _, (sendMessage_sends _ (dataFor_of_id hid _ (by simp))).sends rfl rfl⟩
        · exact ⟨SameTables.refl _, Sends.refl rfl rfl⟩
      exact h.goesTo_same hdata.1 hdata.2
    · exact h

/-- **One event.** -/
theorem Sound.step {s : Connections} (h : s.Sound) (e : ConnectionEvent) (he : s.Clean e) : (step s e).Sound := by
  cases e with
  | message m code => exact h.message m code he
  | resume n => exact h.resume n
  | finish i outcome =>
    apply h.goesTo
    · exact finish_sends s.client i outcome fun o ho hphase =>
        h.sessions o (List.mem_of_getElem? ho) (h.starting o (List.mem_of_getElem? ho) hphase)
    · intro streamId config hget
      rw [(finish_streams s.client i outcome).streams] at hget
      exact .inr hget
    · exact h.sessionsOpen.finish i outcome
  | release i =>
    apply h.goesTo (release_sends s.client i)
    · intro streamId config hget
      rw [(release_streams s.client i).streams] at hget
      exact .inr hget
    · exact h.sessionsOpen.release i
  | sessionData i data => exact h.sessionData i data
  | interval due =>
    have hround := streamIntervalRound_sends s.client due fun entry hentry _ _ =>
      dataFor_of_id (h.streams entry.1 entry.2 ((SortedMap.get_eq_some_iff _ _ _).2 hentry))
    exact h.goesTo_same hround.same (hround.sends rfl rfl)
  | subscribed eventId streamId responseData => exact h.subscribed eventId streamId responseData
  | register path configure => exact h.goesTo_resources rfl rfl rfl rfl
  | erase path => exact h.goesTo_resources rfl rfl rfl rfl
  | subscribe configure => exact h.goesTo_resources rfl rfl rfl rfl
  | keepAlive =>
    rw [Connections.step, Connections.keepAlive]
    split_ifs
    · exact h.goesTo_same (sendMessage_same _ _) ((sendMessage_sends _ (dataFor_of_type (by simp))).sends rfl rfl)
    · exact h
  | writeMessage m => exact h.transport _ (writeStep_cases _ _ (by simp) (by simp))
  | begin i => exact h.transport _ (writeStep_cases _ _ (by simp) (by simp))
  | put i n => exact h.transport _ (writeStep_cases _ _ (by simp) (by simp))
  | complete i => exact h.transport _ (writeStep_cases _ _ (by simp) (by simp))
  | fail i => exact h.transport _ (writeStep_cases _ _ (by simp) (by simp))
  | lost => exact h.transport _ (writeStep_cases _ _ (by simp) (by simp))
  | connect => exact h.transport _ (writeStep_cases _ _ (by simp) (by simp))
  | authenticated => exact h.authenticated he

/-! ## Runs -/

theorem sound_init (logging : Bool) : (init logging).Sound where
  labels := rfl
  connected := rfl
  begun := by simp [Isolated, init]
  queued := by simp [init]
  data := by simp [init]
  streams := by simp [init]
  sessions := by simp [init]
  starting := by simp [init]
  suspended := by simp [init]

/-- **Connections are isolated** from each other, as long as each one comes up with nothing left from before. -/
theorem isolated (logging : Bool) (events : List ConnectionEvent) (h : Run.Steps step Clean (init logging) events) :
    (run (init logging) events).Isolated :=
  (Run.invariant (I := Sound) (p := Clean) (fun _ e hs he => hs.step e he) (init logging) events
    (sound_init logging) h).begun

theorem isolated_second :
    (run (init true) [.connect, .authenticated, .keepAlive, .begin 0, .put 0 2, .complete 0, .lost, .connect,
      .authenticated, .keepAlive, .begin 1]).Isolated := by
  apply isolated
  refine ⟨trivial, ?_, trivial, trivial, trivial, trivial, trivial, trivial, ?_, trivial, trivial, trivial⟩
  · exact fun _ => ⟨rfl, fun _ => rfl, by simp [step, transport, init]⟩
  · intro _
    refine ⟨rfl, fun _ => rfl, ?_⟩
    intro o ho
    exact absurd ho (List.not_mem_nil)

/-- an output resource `a`, without echo -/
def sample (_ : Resource) : Resource where
  callback := .output fun out => .returns { out with data := .boolean true }
  streamEcho := false

/-- a START_STREAM of it, for a sample every millisecond -/
def startSample : IotmpMessage :=
  (IotmpMessage.setField (.withStreamId 5 .startStream) Field.RESOURCE (.string [0x61])).setField Field.PARAMETERS
    (.object [(text "interval", .numberUnsigned 1)])

/-- the KEEP_ALIVE is queued, but not begun when the connection is lost -/
def queueLeft : Connections :=
  run (init true) [.connect, .authenticated, .keepAlive, .lost, .begin 0, .connect, .authenticated, .keepAlive,
    .begin 1]

/-- the stream is open when the connection is lost -/
def streamLeft : Connections :=
  run (init true) [.register [0x61] sample, .connect, .authenticated, .message startSample {}, .begin 0, .put 0 100,
    .complete 0, .lost, .connect, .authenticated, .interval fun _ => true, .begin 1]

/-- **What is left is written**: a frame that stayed in the queue when its connection was lost, and a sample for a
stream of an earlier connection. -/
theorem leftovers_written : ¬ queueLeft.Isolated ∧ ¬ streamLeft.Isolated := by
  constructor
  · have hbegun : ∃ b ∈ queueLeft.begun, b.1 = 2 ∧ b.2.connection = some 1 := by decide +kernel
    obtain ⟨⟨socket, q⟩, hmem, hsocket, hconnection⟩ := hbegun
    intro h
    have hown := (h socket q hmem).1
    simp only at hsocket hconnection
    rw [hsocket, hconnection] at hown
    exact absurd hown (by simp)
  · have hbegun : ∃ b ∈ streamLeft.begun,
        b.2.message.messageType = .streamData ∧ b.2.message.getStreamId ∉ streamLeft.opened b.1 := by decide +kernel
    obtain ⟨⟨socket, q⟩, hmem, htype, hnot⟩ := hbegun
    intro h
    exact hnot ((h socket q hmem).2 htype)

end Connections

end Iotmp
