/-
What the client's functions do to `streams_` and to the stream ids of the events.

- `SameRouting`: neither table changes. That holds of sending, of sessions and stream managers, and of every message
  but a START_STREAM or a STOP_STREAM that reaches a resource.
- `handleMessage_start_routing`, `handleMessage_stop_routing`, `initializeStream_routing`: what these two do to them,
  and the OK for an event.
-/
import Mathlib.Tactic
import Iotmp.Client.References

namespace Iotmp.Client

/-! ## What leaves the streams and the events alone -/

structure SameRouting (c c' : Client) : Prop where
  streams : c'.streams = c.streams
  events : c'.events = c.events

theorem SameRouting.refl (c : Client) : SameRouting c c := ⟨rfl, rfl⟩

theorem SameRouting.trans {c c' c'' : Client} (h : SameRouting c c') (h' : SameRouting c' c'') : SameRouting c c'' :=
  ⟨h'.streams.trans h.streams, h'.events.trans h.events⟩

theorem OnlySends.routing {p : IotmpMessage → Prop} {c c' : Client} (h : OnlySends p c c') : SameRouting c c' := by
  obtain ⟨more, rfl, -⟩ := h
  exact ⟨rfl, rfl⟩

theorem sendMessage_routing (c : Client) (m : IotmpMessage) : SameRouting c (c.sendMessage m).1 :=
  (sendMessage_sends (p := fun _ => True) c trivial).routing

theorem streamResource_routing (c : Client) (r : Resource) (streamId : UInt16) :
    SameRouting c (c.streamResource r streamId).1 :=
  (streamResource_sends (p := fun _ => True) c r fun _ _ => trivial).routing

theorem answerStart_routing (c : Client) (streamId : UInt16) (ref : ResourceRef) (result : ExecResult) :
    SameRouting c (c.answerStart streamId ref result).1 :=
  (answerStart_sends (p := fun _ => True) c ref result fun _ _ => trivial).routing

theorem stopStream_routing (c : Client) (streamId : UInt16) : SameRouting c (c.stopStream streamId).1 :=
  (stopStream_sends (p := fun _ => True) c streamId fun _ _ => trivial).routing

theorem managerStart_routing (c : Client) (manager : ManagerId) (streamId : UInt16) (ref : ResourceRef)
    (create : Call Bool) : SameRouting c (c.managerStart manager streamId ref create).1 := by
  unfold managerStart
  split
  · exact answerStart_routing c _ _ _
  · split
    · exact .refl c
    · exact answerStart_routing c _ _ _
    · exact ⟨rfl, rfl⟩

theorem managerStop_routing (c : Client) (manager : ManagerId) (streamId : UInt16) (stop : Call Unit) :
    SameRouting c (c.managerStop manager streamId stop).1 := by
  unfold managerStop
  split
  · exact .refl c
  · simp only
    split_ifs
    · split
      · exact ⟨rfl, rfl⟩
      · exact ⟨rfl, rfl⟩
    · have hstop := stopStream_routing (c.setSession manager streamId none) streamId
      split
      · rename_i hs
        rw [hs] at hstop
        exact ⟨hstop.streams, hstop.events⟩
      · rename_i hs
        rw [hs] at hstop
        exact ⟨hstop.streams, hstop.events⟩

theorem finishStart_routing (c : Client) (i : ℕ) (outcome : Call ExecResult) :
    SameRouting c (c.finishStart i outcome).1 := by
  unfold finishStart
  split
  · exact .refl c
  · split
    · exact ⟨rfl, rfl⟩
    · simp only
      split_ifs
      · obtain ⟨sessions, heq⟩ := registerSession_eq c i _
        refine SameRouting.trans ?_ (answerStart_routing _ _ _ _)
        rw [heq]
        exact ⟨rfl, rfl⟩
      · have hanswer := answerStart_routing (c.modifySession i fun o => { o with phase := .failed })
        exact ⟨(hanswer _ _ _).streams, (hanswer _ _ _).events⟩

theorem endSession_routing (c : Client) (i : ℕ) : SameRouting c (c.endSession i) := by
  unfold endSession
  split
  · exact .refl c
  · simp only
    split_ifs
    · have hstop := managerStop_routing (c.modifySession i fun o => { o with alive := false })
      exact ⟨(hstop _ _ _).streams, (hstop _ _ _).events⟩
    · exact ⟨rfl, rfl⟩

/-! ## What a message does to them -/

/-- a START_STREAM finds its resource by the path -/
theorem target_start {c : Client} {m : IotmpMessage} (hm : m.messageType = .startStream) {ref : ResourceRef}
    {r : Resource} (h : c.target m = some (ref, r)) : ∃ path, ref = .resource path := by
  obtain ⟨request, hr, -⟩ := target_eq_some.1 h
  unfold resolve at hr
  simp only [hm, reduceCtorEq, or_self, if_false] at hr
  split at hr
  · split at hr
    · exact absurd hr (by simp)
    · rename_i found pathMatches _
      obtain ⟨hpath, -⟩ := by simpa using hr
      obtain ⟨path, -, rfl⟩ := hpath
      exact ⟨path, rfl⟩
  · exact absurd hr (by simp)

/-- it points its stream to that resource -/
theorem handleMessage_start_routing (c : Client) {m : IotmpMessage} (code : SessionCode)
    (hm : m.messageType = .startStream) {path : Bytes} {r : Resource} (h : c.target m = some (.resource path, r)) :
    ∃ config, config.resource = some (.resource path) ∧
      SameRouting (c.setStream m.getStreamId config) (c.handleMessage m code).1 := by
  obtain ⟨request, hr, hd⟩ := target_eq_some.1 h
  obtain ⟨htype, hid⟩ := resolve_kept hr
  have hhandle : (c.handleMessage m code).1 = (c.handleStartStream (.resource path) r request code.create).1 := by
    simp only [handleMessage, hm, handleResourceRequest, hr, hd, handleResource, htype]
  refine ⟨{ resource := some (.resource path), interval := getInterval (request.get Field.PARAMETERS) }, rfl, ?_⟩
  have hopen : SameRouting (c.setStream m.getStreamId
      { resource := some (.resource path), interval := getInterval (request.get Field.PARAMETERS) })
      (c.openStream (.resource path) request) := by
    unfold openStream setResourceStreamId
    rw [hid]
    simp only
    split_ifs
    · split
      · exact .refl _
      · exact ⟨rfl, rfl⟩
      · rename_i heq
        exact absurd heq (by simp)
    · exact .refl _
  rw [hhandle, handleStartStream]
  refine hopen.trans ?_
  split
  · exact managerStart_routing _ _ _ _ _
  · have hsend := sendMessage_routing (c.openStream (.resource path) request) (.withStreamId request.getStreamId .ok)
    split
    · rename_i hs
      rw [hs] at hsend
      exact hsend
    · rename_i hs
      rw [hs] at hsend
      split_ifs
      · exact hsend.trans (streamResource_routing _ _ _)
      · exact hsend

/-- a STOP_STREAM erases its stream, and clears the id of the resource if that is the stream's -/
theorem handleMessage_stop_routing (c : Client) {m : IotmpMessage} (code : SessionCode)
    (hm : m.messageType = .stopStream) {ref : ResourceRef} {r : Resource} (h : c.target m = some (ref, r)) :
    SameRouting (c.closeStream ref r m.getStreamId) (c.handleMessage m code).1 := by
  obtain ⟨request, hr, hd⟩ := target_eq_some.1 h
  obtain ⟨htype, hid⟩ := resolve_kept hr
  have hhandle : (c.handleMessage m code).1 = (c.handleStopStream ref r request code.stop).1 := by
    simp only [handleMessage, hm, handleResourceRequest, hr, hd, handleResource, htype]
  rw [hhandle, handleStopStream, hid]
  split
  · rename_i manager _
    have hstop := managerStop_routing (c.closeStream ref r m.getStreamId) manager m.getStreamId code.stop
    split
    · rename_i hs
      rw [hs] at hstop
      exact hstop
    · rename_i hs
      rw [hs] at hstop
      exact hstop.trans (sendMessage_routing _ _)
  · exact sendMessage_routing _ _

/-! ## What an OK of the server does to them -/

/-- from the OK on: the entry of the stream and the id of the event -/
theorem initializeStream_routing {c : Client} {eventId : UInt8} {event : Resource}
    (he : c.events.get eventId = some event) (streamId : UInt16) (responseData : Json) :
    (c.initializeStream eventId streamId responseData).1.streams =
        c.streams.set streamId { resource := some (.event eventId) } ∧
      (c.initializeStream eventId streamId responseData).1.events =
        c.events.set eventId { event with streamId := streamId } := by
  have hopen :
      (c.setStream streamId { resource := some (.event eventId) }).setResourceStreamId (.event eventId) streamId =
      { c with
        streams := c.streams.set streamId { resource := some (.event eventId) }
        events := c.events.set eventId { event with streamId := streamId } } := by
    simp only [setStream, setResourceStreamId, deref, he]
  unfold initializeStream
  rw [he]
  simp only [hopen]
  split_ifs
  · exact ⟨rfl, rfl⟩
  · split
    · exact ⟨rfl, rfl⟩
    · exact ⟨rfl, rfl⟩

end Iotmp.Client
