/-
The answer to a START_STREAM and the data of its stream (`client.hpp`: `handle_resource_request`,
`stream_interval_loop`, `stream_resource`; `iotmp_stream_manager.cpp`: `start`).

The stream is entered in `streams_`, with its interval, before the session start decides; a START_STREAM that is
rejected leaves the entry behind. The interval loop looks at nothing else.

- `StreamOp`: what happens on a connection. `Starts`: the client, the START_STREAM requests that wait for their answer,
  the ids whose last one was rejected, and `early`: the stream data that was sent under such an id.
- `hear`: how one message that is sent is taken down. The first OK or ERROR that the handler of a START_STREAM, or the
  end of its session's start, sends under its id is the answer.
- `Orderly`: no producer of stream data comes upon such an id.
- `Replies`: an answer first, and stream data behind an OK only; what START_STREAM and the end of a start do.
- `answered_first`: nothing is early in a run whose steps are all orderly, by the invariant `InOrder`.
Witness: `answered_first_session`. Counterexample: `interval_before_answer`.
-/
import Mathlib.Tactic
import Iotmp.Client.IntervalLoop
import Iotmp.Client.Connections

namespace Iotmp

open Client

/-- what happens on a connection -/
inductive StreamOp where
  | message (m : IotmpMessage) (code : SessionCode)
  | finish (i : ℕ) (outcome : Call ExecResult)
  | release (i : ℕ)
  | sessionData (i : ℕ) (data : Json)
  | interval (due : UInt16 → Bool)
  | subscribed (eventId : UInt8) (streamId : UInt16) (responseData : Json)
  | register (path : Bytes) (configure : Resource → Resource)
  | erase (path : Bytes)
  | subscribe (configure : Resource → Resource)

/-- what a session sends -/
def Client.sessionData (c : Client) (i : ℕ) (data : Json) : Client :=
  match c.objects[i]? with
  | none => c
  | some o => if o.alive then (c.streamData o.streamId data).1 else c

def Client.streamStep (c : Client) : StreamOp → Client
  | .message m code => (c.handleMessage m code).1
  | .finish i outcome => Client.step c (.finish i outcome)
  | .release i => Client.step c (.release i)
  | .sessionData i data => c.sessionData i data
  | .interval due => (c.streamIntervalRound due).1
  | .subscribed eventId streamId responseData => (c.initializeStream eventId streamId responseData).1
  | .register path configure => c.registerResource path configure
  | .erase path => c.eraseResource path
  | .subscribe configure => c.eventSubscribe configure

/-- a START_STREAM: its stream id, and the session that decides it, if there is one -/
abbrev Start := UInt16 × Option ℕ

structure Starts where
  client : Client
  waiting : List Start := []
  /-- the ids in use: their START_STREAM was not rejected, and no STOP_STREAM has come since -/
  active : UInt16 → Bool := fun _ => false
  refused : UInt16 → Bool := fun _ => false
  early : List IotmpMessage := []

namespace Starts

/-! ## The steps -/

/-- stream data must not be sent under the id -/
def Blocked (s : Starts) (streamId : UInt16) : Prop := (∃ w ∈ s.waiting, w.1 = streamId) ∨ s.refused streamId = true

instance instDecidableBlocked (s : Starts) (streamId : UInt16) : Decidable (s.Blocked streamId) :=
  inferInstanceAs (Decidable (_ ∨ _))

/-- a message is sent, while `own` is what may be answered -/
def hear (own : Option Start) (s : Starts) (m : IotmpMessage) : Starts :=
  if m.messageType = .streamData then
    if s.Blocked m.getStreamId then { s with early := s.early ++ [m] } else s
  else
    match own with
    | none => s
    | some start =>
      if start ∈ s.waiting ∧ isAnswer start.1 m = true then
        let rejected : Bool := m.messageType = .error
        { s with
          waiting := s.waiting.filter (· ≠ start)
          active := Function.update s.active start.1 (s.active start.1 && !rejected)
          refused := Function.update s.refused start.1 rejected }
      else s

/-- the client goes on to `c`, and what it sent meanwhile is heard -/
def goesTo (s : Starts) (own : Option Start) (c : Client) : Starts :=
  (c.sent.drop s.client.sent.length).foldl (hear own) { s with client := c }

/-- the START_STREAM of a message, if its id was not in use -/
def ownStart (s : Starts) (m : IotmpMessage) (c : Client) : Option Start :=
  if m.messageType = .startStream ∧ s.active m.getStreamId = false then
    some (m.getStreamId, if s.client.objects.length < c.objects.length then some s.client.objects.length else none)
  else none

def begins (s : Starts) (start : Start) : Starts :=
  { s with
    waiting := start :: s.waiting
    active := Function.update s.active start.1 true
    refused := Function.update s.refused start.1 false }

def message (s : Starts) (m : IotmpMessage) (code : SessionCode) : Starts :=
  let c := (s.client.handleMessage m code).1
  match s.ownStart m c with
  | some start => (s.begins start).goesTo (some start) c
  | none =>
    let s := s.goesTo none c
    if m.messageType = .stopStream then { s with active := Function.update s.active m.getStreamId false } else s

def step (s : Starts) : StreamOp → Starts
  | .message m code => s.message m code
  | .finish i outcome =>
    s.goesTo (s.client.objects[i]?.map fun o => (o.streamId, some i)) (s.client.streamStep (.finish i outcome))
  | op => s.goesTo none (s.client.streamStep op)

abbrev run (s : Starts) (ops : List StreamOp) : Starts := Run.run step s ops

/-! ## The condition -/

/-- **No producer of stream data comes upon an id that is waiting or refused.** -/
def Orderly (s : Starts) : StreamOp → Prop
  | .message m _ =>
    (m.messageType = .startStream → ∀ w ∈ s.waiting, w.1 ≠ m.getStreamId) ∧
      (m.messageType = .streamData → (s.client.target m).isSome → ¬ s.Blocked m.getStreamId)
  | .finish i _ =>
    ∀ o ∈ s.client.objects[i]?, s.refused o.streamId = false ∧ ∀ w ∈ s.waiting, w.1 = o.streamId → w.2 = some i
  | .sessionData i _ => ∀ o ∈ s.client.objects[i]?, o.alive = true → ¬ s.Blocked o.streamId
  | .interval due =>
    ∀ entry ∈ s.client.streams.entries, 0 < entry.2.interval → due entry.1 = true → ¬ s.Blocked entry.1
  | _ => True

instance instDecidableOrderly (s : Starts) : (op : StreamOp) → Decidable (s.Orderly op)
  | .message m _ => inferInstanceAs (Decidable ((m.messageType = .startStream → _) ∧ (m.messageType = .streamData → _)))
  | .finish i _ => inferInstanceAs (Decidable (∀ o ∈ s.client.objects[i]?, _ ∧ _))
  | .sessionData i _ =>
    inferInstanceAs (Decidable (∀ o ∈ s.client.objects[i]?, o.alive = true → ¬ s.Blocked o.streamId))
  | .interval _ => inferInstanceAs (Decidable (∀ entry ∈ s.client.streams.entries, _))
  | .release _ => isTrue trivial
  | .subscribed _ _ _ => isTrue trivial
  | .register _ _ => isTrue trivial
  | .erase _ => isTrue trivial
  | .subscribe _ => isTrue trivial

/-! ## An answer and its data -/

/-- nothing, or an answer under the id and, behind an OK, stream data under it -/
def Replies (streamId : UInt16) (ms : List IotmpMessage) : Prop :=
  ms = [] ∨ ∃ answer data, ms = answer :: data ∧ isAnswer streamId answer = true ∧
    (∀ m ∈ data, m.messageType = .streamData ∧ m.getStreamId = streamId) ∧ (answer.messageType = .error → data = [])

def Replied (streamId : UInt16) (c c' : Client) : Prop := ∃ ms, c'.sent = c.sent ++ ms ∧ Replies streamId ms

theorem Replied.nothing {streamId : UInt16} {c c' : Client} (h : c'.sent = c.sent) : Replied streamId c c' :=
  ⟨[], by rw [h, List.append_nil], .inl rfl⟩

/-- what came before sent nothing -/
theorem Replied.after {streamId : UInt16} {c c' c'' : Client} (h : Replied streamId c' c'') (hsent : c'.sent = c.sent) :
    Replied streamId c c'' := by
  obtain ⟨ms, hms, hreplies⟩ := h
  exact ⟨ms, by rw [hms, hsent], hreplies⟩

theorem sendMessage_replied (c : Client) {answer : IotmpMessage} {streamId : UInt16}
    (h : isAnswer streamId answer = true) : Replied streamId c (c.sendMessage answer).1 := by
  unfold sendMessage
  split_ifs
  · exact ⟨[answer], rfl, .inr ⟨answer, [], rfl, h, by simp, fun _ => rfl⟩⟩
  · exact .nothing rfl

/-- what `stream_resource` sends is stream data under the id -/
theorem streamResource_data (c : Client) (r : Resource) (streamId : UInt16) :
    ∃ data, (c.streamResource r streamId).1.sent = c.sent ++ data ∧
      ∀ m ∈ data, m.messageType = .streamData ∧ m.getStreamId = streamId := by
  rw [IntervalLoop.streamResource_eq]
  rcases h : r.streamed streamId with message | _
  · refine ⟨message.toList, rfl, fun m hm => ?_⟩
    obtain rfl := Option.mem_toList.1 hm
    exact IntervalLoop.streamed_data h
  · exact ⟨[], by simp, by simp⟩

/-- an answer that was sent, and its data -/
theorem replied_data {c c' c'' : Client} {answer : IotmpMessage} {streamId : UInt16}
    (h : isAnswer streamId answer = true) (hsent : c'.sent = c.sent ++ [answer])
    (hdata : ∃ data, c''.sent = c'.sent ++ data ∧ ∀ m ∈ data, m.messageType = .streamData ∧ m.getStreamId = streamId)
    (hok : answer.messageType ≠ .error) : Replied streamId c c'' := by
  obtain ⟨data, hmore, hall⟩ := hdata
  refine ⟨answer :: data, ?_, .inr ⟨answer, data, rfl, h, hall, fun herror => absurd herror hok⟩⟩
  rw [hmore, hsent, List.append_assoc, List.singleton_append]

theorem answerStart_replied (c : Client) (streamId : UInt16) (ref : ResourceRef) (result : ExecResult) :
    Replied streamId c (c.answerStart streamId ref result).1 := by
  have hanswer : isAnswer streamId (result.message.setStreamId streamId) = true :=
    isAnswer_of (by simpa using result.answers) (by simp)
  have hreplied := sendMessage_replied c hanswer
  unfold answerStart
  by_cases hlogs : (result.message.setStreamId streamId).Logs c.logging
  · rw [sendMessage_of_logs hlogs] at hreplied ⊢
    simp only
    split
    · exact hreplied
    · split_ifs with hecho
      · have hok : result.message.messageType = .ok := by
          simpa [ExecResult.isOk] using (Bool.and_eq_true_iff.1 hecho).1
        exact replied_data hanswer rfl (streamResource_data _ _ _) (by simp [hok])
      · exact hreplied
  · rw [sendMessage_of_not_logs hlogs]
    exact .nothing rfl

theorem managerStart_replied (c : Client) (manager : ManagerId) (streamId : UInt16) (ref : ResourceRef)
    (create : Call Bool) : Replied streamId c (c.managerStart manager streamId ref create).1 := by
  unfold managerStart
  split
  · exact answerStart_replied c streamId ref _
  · split
    · exact .nothing rfl
    · exact answerStart_replied c streamId ref _
    · exact .nothing rfl

theorem handleStartStream_replied (c : Client) (ref : ResourceRef) (r : Resource) (request : IotmpMessage)
    (create : Call Bool) : Replied request.getStreamId c (c.handleStartStream ref r request create).1 := by
  obtain ⟨hopen, -⟩ := Connections.openStream_sends c ref request
  have hanswer : isAnswer request.getStreamId (.withStreamId request.getStreamId .ok) = true :=
    isAnswer_of (.inl (by simp)) (by simp)
  unfold handleStartStream
  simp only
  split
  · exact (managerStart_replied _ _ _ ref create).after hopen
  · refine Replied.after ?_ hopen
    have hreplied := sendMessage_replied (c.openStream ref request) hanswer
    by_cases hlogs : (IotmpMessage.withStreamId request.getStreamId .ok).Logs (c.openStream ref request).logging
    · rw [sendMessage_of_logs hlogs] at hreplied ⊢
      simp only
      split_ifs
      · exact replied_data hanswer rfl (streamResource_data _ _ _) (by simp)
      · exact hreplied
    · rw [sendMessage_of_not_logs hlogs]
      exact .nothing rfl

/-- **What the handler of a START_STREAM sends**, whatever it names. -/
theorem handleMessage_replied (c : Client) (m : IotmpMessage) (code : SessionCode)
    (htype : m.messageType = .startStream) : Replied m.getStreamId c (c.handleMessage m code).1 := by
  simp only [handleMessage, htype, handleResourceRequest]
  rcases hr : c.resolve m with ⟨_ | ref, request⟩ | _
  · obtain ⟨hkept, hid⟩ := resolve_kept hr
    have hsends : c.handleNoResource request = c.sendMessage (.withStreamId request.getStreamId .error) := by
      simp [handleNoResource, hkept, htype]
    simp only [hsends]
    exact sendMessage_replied c (isAnswer_of (.inr (by simp)) (by simp [hid]))
  · obtain ⟨hkept, hid⟩ := resolve_kept hr
    rcases hd : c.deref ref with _ | r
    · simp only [hd]
      exact .nothing rfl
    · simp only [hd, handleResource, hkept, htype]
      rw [← hid]
      exact handleStartStream_replied c ref r request code.create
  · exact .nothing rfl

/-- **What the end of a session's start sends.** -/
theorem finish_replied (c : Client) (i : ℕ) (outcome : Call ExecResult) {o : Session} (ho : c.objects[i]? = some o) :
    Replied o.streamId c (Client.step c (.finish i outcome)) := by
  rw [Client.step]
  split_ifs
  · unfold finishStart
    rw [ho]
    cases outcome with
    | throws => exact .nothing rfl
    | returns result =>
      obtain ⟨sessions, heq⟩ := registerSession_eq c i o
      simp only
      split_ifs
      · exact (answerStart_replied _ _ _ result).after (by rw [heq])
      · exact (answerStart_replied _ _ _ result).after rfl
  · exact .nothing rfl

/-! ## What is heard -/

theorem hear_none (s : Starts) (ms : List IotmpMessage)
    (h : ∀ m ∈ ms, Connections.DataFor (fun streamId => ¬ s.Blocked streamId) m) : ms.foldl (hear none) s = s := by
  induction ms with
  | nil => rfl
  | cons m ms ih =>
    obtain ⟨hm, hms⟩ := List.forall_mem_cons.1 h
    have hkept : hear none s m = s := by
      rw [hear]
      split_ifs with htype hblocked
      · exact absurd hblocked (hm htype)
      · rfl
      · rfl
    rw [List.foldl_cons, hkept]
    exact ih hms

/-- nothing comes early if all the stream data is for ids that are not blocked -/
theorem goesTo_none {s : Starts} {c : Client}
    (h : Sends (Connections.DataFor fun streamId => ¬ s.Blocked streamId) s.client c) :
    s.goesTo none c = { s with client := c } := by
  obtain ⟨⟨more, hsent, hmore⟩, -⟩ := h
  rw [goesTo, hsent, List.drop_left]
  exact hear_none { s with client := c } more hmore

/-- data under an id that is not blocked is not early -/
theorem hear_data (own : Option Start) (s : Starts) {streamId : UInt16} (h : ¬ s.Blocked streamId)
    (data : List IotmpMessage) (hdata : ∀ m ∈ data, m.messageType = .streamData ∧ m.getStreamId = streamId) :
    data.foldl (hear own) s = s := by
  induction data with
  | nil => rfl
  | cons m data ih =>
    obtain ⟨⟨htype, hid⟩, hrest⟩ := List.forall_mem_cons.1 hdata
    have hkept : hear own s m = s := by
      unfold hear
      rw [if_pos htype, hid, if_neg h]
    rw [List.foldl_cons, hkept]
    exact ih hrest

/-- an answer is taken by the start that waits for it -/
theorem hear_answer (s : Starts) {start : Start} {answer : IotmpMessage} (h : isAnswer start.1 answer = true) :
    hear (some start) s answer =
      if start ∈ s.waiting then
        { s with
          waiting := s.waiting.filter (· ≠ start)
          active := Function.update s.active start.1 (s.active start.1 && !decide (answer.messageType = .error))
          refused := Function.update s.refused start.1 (decide (answer.messageType = .error)) }
      else s := by
  have htype : answer.messageType ≠ .streamData := by
    obtain ⟨hok | herror, -⟩ := of_decide_eq_true h
    · simp [hok]
    · simp [herror]
  simp [hear, htype, h]

/-- the invariant of the runs that meet the condition -/
structure InOrder (s : Starts) : Prop where
  early : s.early = []
  refused : ∀ streamId, s.active streamId = true → s.refused streamId = false

theorem InOrder.withClient {s : Starts} (h : s.InOrder) (c : Client) : { s with client := c }.InOrder :=
  ⟨h.early, h.refused⟩

theorem InOrder.begins {s : Starts} (h : s.InOrder) (start : Start) : (s.begins start).InOrder := by
  refine ⟨h.early, fun streamId hactive => ?_⟩
  by_cases hid : streamId = start.1
  · subst hid
    exact Function.update_self ..
  · rw [Starts.begins] at hactive ⊢
    simp only [Function.update_of_ne hid] at hactive ⊢
    exact h.refused streamId hactive

/-- **An answer and its data are heard in order**, if no other start under the id waits and it is not refused. -/
theorem InOrder.hear_replies {s : Starts} (h : s.InOrder) {start : Start} {ms : List IotmpMessage}
    (hreplies : Replies start.1 ms) (hrefused : s.refused start.1 = false)
    (howner : ∀ w ∈ s.waiting, w.1 = start.1 → w = start) : (ms.foldl (hear (some start)) s).InOrder := by
  obtain rfl | ⟨answer, data, rfl, hanswer, hdata, herror⟩ := hreplies
  · exact h
  · rw [List.foldl_cons, hear_answer s hanswer]
    split_ifs with hwaiting
    · -- the answer is taken, and nothing under the id waits any more
      have hnone : ∀ w ∈ s.waiting.filter (· ≠ start), w.1 ≠ start.1 := fun w hw hid => by
        obtain ⟨hmem, hne⟩ := List.mem_filter.1 hw
        exact absurd (howner w hmem hid) (of_decide_eq_true hne)
      have hinOrder : InOrder { s with
          waiting := s.waiting.filter (· ≠ start)
          active := Function.update s.active start.1 (s.active start.1 && !decide (answer.messageType = .error))
          refused := Function.update s.refused start.1 (decide (answer.messageType = .error)) } := by
        refine ⟨h.early, fun streamId hactive => ?_⟩
        by_cases hid : streamId = start.1
        · subst hid
          simp only [Function.update_self] at hactive ⊢
          simpa using (Bool.and_eq_true_iff.1 hactive).2
        · simp only [Function.update_of_ne hid] at hactive ⊢
          exact h.refused streamId hactive
      by_cases hrejected : answer.messageType = .error
      · rw [herror hrejected]
        exact hinOrder
      · rw [hear_data _ _ ?_ data hdata]
        · exact hinOrder
        · rintro (⟨w, hw, hid⟩ | hid)
          · exact hnone w hw hid
          · simp [hrejected] at hid
    · rw [hear_data _ s ?_ data hdata]
      · exact h
      · rintro (⟨w, hw, hid⟩ | hid)
        · exact hwaiting (howner w hw hid ▸ hw)
        · exact absurd hid (by simp [hrefused])

theorem InOrder.goesTo {s : Starts} (h : s.InOrder) {start : Start} {c : Client}
    (hreplied : Replied start.1 s.client c) (hrefused : s.refused start.1 = false)
    (howner : ∀ w ∈ s.waiting, w.1 = start.1 → w = start) : (s.goesTo (some start) c).InOrder := by
  obtain ⟨ms, hsent, hreplies⟩ := hreplied
  rw [Starts.goesTo, hsent, List.drop_left]
  exact (h.withClient c).hear_replies hreplies hrefused howner

/-! ## Steps and runs -/

theorem InOrder.message {s : Starts} (h : s.InOrder) (m : IotmpMessage) (code : SessionCode)
    (hm : s.Orderly (.message m code)) : (s.message m code).InOrder := by
  obtain ⟨hstart, hdata⟩ := hm
  rw [Starts.message]
  rcases hown : s.ownStart m (s.client.handleMessage m code).1 with _ | start
  · -- stream data comes for the message's id only, which is not blocked
    have hsends : Sends (Connections.DataFor fun streamId => ¬ s.Blocked streamId) s.client
        (s.client.handleMessage m code).1 := by
      refine Connections.handleMessage_sends s.client m code fun htype htarget => ?_
      rcases htype with htype | htype
      · have hactive : s.active m.getStreamId = true := by
          simpa [ownStart, htype] using hown
        rintro (⟨w, hw, hid⟩ | hid)
        · exact hstart htype w hw hid
        · exact absurd hid (by simp [h.refused _ hactive])
      · exact hdata htype htarget
    simp only [goesTo_none hsends]
    split_ifs
    · refine ⟨h.early, fun streamId hactive => ?_⟩
      by_cases hid : streamId = m.getStreamId
      · subst hid
        simp at hactive
      · exact h.refused streamId (by simpa [Function.update_of_ne hid] using hactive)
    · exact h.withClient _
  · -- the answer of a START_STREAM under an id that was not in use
    obtain ⟨htype, hid⟩ : m.messageType = .startStream ∧ start.1 = m.getStreamId := by
      rw [ownStart] at hown
      split_ifs at hown with hfresh
      all_goals exact ⟨hfresh.1, by rw [← Option.some.inj hown]⟩
    refine (h.begins start).goesTo (hid ▸ handleMessage_replied s.client m code htype) (Function.update_self ..) ?_
    intro w hw hsame
    rcases List.mem_cons.1 hw with rfl | hw
    · rfl
    · exact absurd (hsame.trans hid) (hstart htype w hw)

/-- **A step that meets the condition** sends nothing early. -/
theorem InOrder.step {s : Starts} (h : s.InOrder) (op : StreamOp) (hop : s.Orderly op) : (step s op).InOrder := by
  have hkeep : ∀ {c : Client}, Sends (Connections.DataFor fun streamId => ¬ s.Blocked streamId) s.client c →
      (s.goesTo none c).InOrder := by
    intro c hsends
    rw [goesTo_none hsends]
    exact h.withClient c
  cases op with
  | message m code => exact h.message m code hop
  | finish i outcome =>
    rw [Starts.step]
    rcases ho : s.client.objects[i]? with _ | o
    · exact hkeep (Connections.finish_sends s.client i outcome fun o ho' => by simp [ho] at ho')
    · obtain ⟨hrefused, howner⟩ := hop o ho
      exact h.goesTo (finish_replied s.client i outcome ho) hrefused fun w hw hid => Prod.ext hid (howner w hw hid)
  | release i => exact hkeep (Connections.release_sends s.client i)
  | sessionData i data =>
    refine hkeep ?_
    rw [Client.streamStep, Client.sessionData]
    split
    · exact Sends.refl rfl rfl
    · rename_i o ho
      split_ifs with halive
      · rw [Client.streamData]
        split_ifs
        · exact (sendMessage_sends s.client (Connections.dataFor_of_id (hop o ho halive) _ (by simp))).sends rfl rfl
        · exact Sends.refl rfl rfl
      · exact Sends.refl rfl rfl
  | interval due =>
    exact hkeep ((streamIntervalRound_sends s.client due fun e he hinterval hdue =>
      Connections.dataFor_of_id (hop e he hinterval hdue)).sends rfl rfl)
  | subscribed eventId streamId responseData =>
    exact hkeep (Connections.initializeStream_sends s.client eventId streamId responseData)
  | register path configure => exact hkeep (Sends.refl rfl rfl)
  | erase path => exact hkeep (Sends.refl rfl rfl)
  | subscribe configure => exact hkeep (Sends.refl rfl rfl)

/-- **The answer comes first**: no stream data is sent under an id whose START_STREAM is unanswered or was rejected, in
a run in which nothing that sends stream data comes upon such an id. -/
theorem answered_first (c : Client) (ops : List StreamOp) (h : Run.Steps step Orderly { client := c } ops) :
    (run { client := c } ops).early = [] := by
  have hinit : InOrder { client := c } := ⟨rfl, fun _ hactive => absurd hactive (by simp)⟩
  exact (Run.invariant (fun _ op hs hop => hs.step op hop) _ ops hinit h).early

/-! ## A managed resource that is streamed every second -/

/-- the resource of a stream manager -/
def managed (_ : Resource) : Resource where
  callback := .input fun input => .returns input.data
  streamHandler := some 0
  streamEcho := false

def startManaged : IotmpMessage :=
  (IotmpMessage.setField (.withStreamId 5 .startStream) Field.RESOURCE (.string [0x61])).setField Field.PARAMETERS
    (.object [(text "interval", .numberUnsigned 1000)])

/-- its session starts, sends, and the stream is due -/
def managedSession : List StreamOp :=
  [.register [0x61] managed, .message startManaged {}, .finish 0 (.returns (.ofBool true)), .sessionData 0 .null,
    .interval fun _ => true]

theorem answered_first_session :
    (run { client := {} } managedSession).early = [] ∧
      (run { client := {} } managedSession).client.sent.map IotmpMessage.messageType =
        [.ok, .streamData, .streamData] :=
  ⟨answered_first {} managedSession (by decide), by decide⟩

/-- **The interval comes first**: a tick before the session has started, and a tick after it was rejected. -/
theorem interval_before_answer :
    (run { client := {} } [.register [0x61] managed, .message startManaged {}, .interval fun _ => true]).early ≠ [] ∧
      (run { client := {} } [.register [0x61] managed, .message startManaged { create := .returns false },
        .interval fun _ => true]).early ≠ [] := by
  refine ⟨?_, ?_⟩
  · decide
  · decide

end Starts

end Iotmp
