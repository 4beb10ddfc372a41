/-
Stream sessions over time: what START_STREAM, STOP_STREAM, the completion of `session->start()` and the end of a session
do to the client's tables.

- `SessionOp`, `step`: the four events. Requests go through `handleMessage`, so they may carry any fields and name any
  resource.
- `OnlySends`: nothing but messages, and which; one lemma for each function that only sends. `SameTables`: such a
  function leaves the tables as they are.
- `start_cases`, `stop_cases`, `finish_cases`, `endSession_cases`: everything an event can do to them. The invariants
  are proved from these alone.
-/
import Mathlib.Tactic
import Iotmp.Client.Requests
import Iotmp.Lib.Run

namespace Iotmp.Client

/-! ## Events -/

inductive SessionOp where
  /-- a START_STREAM is handled -/
  | start (request : IotmpMessage) (create : Call Bool)
  /-- a STOP_STREAM is handled -/
  | stop (request : IotmpMessage) (stop : Call Unit)
  /-- `session->start()` of a starting session is done -/
  | finish (i : ℕ) (outcome : Call ExecResult)
  /-- the last reference to a session is dropped -/
  | release (i : ℕ)

/-- the session's starting coroutine is still suspended in `session->start()` -/
def IsStarting (c : Client) (i : ℕ) : Prop := ∃ o, c.objects[i]? = some o ∧ o.phase = .starting

/-- nothing but its own coroutines holds the session, and it has not ended yet -/
def CanEnd (c : Client) (i : ℕ) : Prop := ∃ o, c.objects[i]? = some o ∧ o.phase ≠ .starting ∧ o.alive = true

instance (c : Client) (i : ℕ) : Decidable (c.IsStarting i) :=
  match h : c.objects[i]? with
  | none => isFalse fun ⟨_, ho, _⟩ => by rw [h] at ho; cases ho
  | some o => decidable_of_iff (o.phase = .starting)
      ⟨fun hp => ⟨o, h, hp⟩, fun ⟨o', ho, hp⟩ => by rw [h] at ho; exact Option.some.inj ho ▸ hp⟩

instance (c : Client) (i : ℕ) : Decidable (c.CanEnd i) :=
  match h : c.objects[i]? with
  | none => isFalse fun ⟨_, ho, _⟩ => by rw [h] at ho; cases ho
  | some o => decidable_of_iff (o.phase ≠ .starting ∧ o.alive = true)
      ⟨fun hp => ⟨o, h, hp⟩, fun ⟨o', ho, hp⟩ => by rw [h] at ho; exact Option.some.inj ho ▸ hp⟩

def step (c : Client) : SessionOp → Client
  | .start request create => (c.handleMessage (request.setMessageType .startStream) { create := create }).1
  | .stop request stop => (c.handleMessage (request.setMessageType .stopStream) { stop := stop }).1
  | .finish i outcome => if c.IsStarting i then (c.finishStart i outcome).1 else c
  | .release i => if c.CanEnd i then c.endSession i else c

def run (c : Client) (ops : List SessionOp) : Client := Run.run step c ops

/-! ## Events that only send -/

/-- the stream handler of the resource behind a pointer -/
def handlerOf (c : Client) (ref : ResourceRef) : Option (Option ManagerId) := (c.deref ref).map Resource.streamHandler

/-- nothing but messages that all satisfy `p` -/
def OnlySends (p : IotmpMessage → Prop) (c c' : Client) : Prop :=
  ∃ more, c' = { c with sent := c.sent ++ more } ∧ ∀ m ∈ more, p m

section

variable {p : IotmpMessage → Prop}

theorem OnlySends.refl (c : Client) : OnlySends p c c := ⟨[], by simp, by simp⟩

theorem OnlySends.trans {c c' c'' : Client} (h : OnlySends p c c') (h' : OnlySends p c' c'') : OnlySends p c c'' := by
  obtain ⟨more, rfl, hmore⟩ := h
  obtain ⟨more', rfl, hmore'⟩ := h'
  refine ⟨more ++ more', by simp, ?_⟩
  intro m hm
  rcases List.mem_append.1 hm with hm | hm
  · exact hmore m hm
  · exact hmore' m hm

theorem sendMessage_sends (c : Client) {m : IotmpMessage} (hm : p m) : OnlySends p c (c.sendMessage m).1 := by
  unfold sendMessage
  split_ifs
  · exact ⟨[m], rfl, by simpa using hm⟩
  · exact OnlySends.refl c

theorem streamResource_sends (c : Client) (r : Resource) {streamId : UInt16}
    (hp : ∀ m : IotmpMessage, m.getStreamId = streamId → p m) : OnlySends p c (c.streamResource r streamId).1 := by
  unfold streamResource
  split
  · exact OnlySends.refl c
  · simp only
    split_ifs
    all_goals first | exact sendMessage_sends c (hp _ (by simp)) | exact OnlySends.refl c

theorem answerStart_sends (c : Client) (ref : ResourceRef) (result : ExecResult) {streamId : UInt16}
    (hp : ∀ m : IotmpMessage, m.getStreamId = streamId → p m) :
    OnlySends p c (c.answerStart streamId ref result).1 := by
  have hsend := sendMessage_sends c (hp (result.message.setStreamId streamId) (by simp))
  unfold answerStart
  rcases h : c.sendMessage (result.message.setStreamId streamId) with ⟨c', _ | _⟩
  · rw [h] at hsend
    exact hsend
  · rw [h] at hsend
    simp only
    split
    · exact hsend
    · split_ifs
      · exact hsend.trans (streamResource_sends c' _ hp)
      · exact hsend

theorem stopStream_sends (c : Client) (streamId : UInt16)
    (hp : ∀ m : IotmpMessage, m.messageType ≠ .streamData → p m) : OnlySends p c (c.stopStream streamId).1 := by
  unfold stopStream
  split_ifs
  · exact sendMessage_sends c (hp _ (by simp))
  · exact OnlySends.refl c

theorem handleNoResource_sends (c : Client) (request : IotmpMessage)
    (hp : ∀ m : IotmpMessage, m.messageType ≠ .streamData → p m) : OnlySends p c (c.handleNoResource request).1 := by
  unfold handleNoResource
  split_ifs
  · have htype : (c.describeApi (.withStreamId request.getStreamId .ok)).messageType = .ok := by
      unfold describeApi
      split
      · simp
      · simp
    exact sendMessage_sends c (hp _ (by simp [htype]))
  · exact sendMessage_sends c (hp _ (by simp))
  · exact OnlySends.refl c

end

structure SameTables (c c' : Client) : Prop where
  objects : c'.objects = c.objects
  sessions : c'.sessions = c.sessions
  streams : c'.streams = c.streams
  handlerOf : c'.handlerOf = c.handlerOf

theorem SameTables.refl (c : Client) : SameTables c c := ⟨rfl, rfl, rfl, rfl⟩

theorem SameTables.trans {c c' c'' : Client} (h : SameTables c c') (h' : SameTables c' c'') : SameTables c c'' :=
  ⟨h'.objects.trans h.objects, h'.sessions.trans h.sessions, h'.streams.trans h.streams,
    h'.handlerOf.trans h.handlerOf⟩

/-- messages touch no table -/
theorem OnlySends.same {p : IotmpMessage → Prop} {c c' : Client} (h : OnlySends p c c') : SameTables c c' := by
  obtain ⟨more, rfl, -⟩ := h
  exact ⟨rfl, rfl, rfl, rfl⟩

theorem sendMessage_same (c : Client) (m : IotmpMessage) : SameTables c (c.sendMessage m).1 :=
  (sendMessage_sends (p := fun _ => True) c trivial).same

theorem stopStream_same (c : Client) (streamId : UInt16) : SameTables c (c.stopStream streamId).1 :=
  (stopStream_sends (p := fun _ => True) c streamId fun _ _ => trivial).same

theorem streamResource_same (c : Client) (r : Resource) (streamId : UInt16) :
    SameTables c (c.streamResource r streamId).1 :=
  (streamResource_sends (p := fun _ => True) c r fun _ _ => trivial).same

theorem answerStart_same (c : Client) (streamId : UInt16) (ref : ResourceRef) (result : ExecResult) :
    SameTables c (c.answerStart streamId ref result).1 :=
  (answerStart_sends (p := fun _ => True) c ref result fun _ _ => trivial).same

/-! ## A resource's own stream id -/

theorem handlerOf_setResourceStreamId (c : Client) (ref : ResourceRef) (streamId : UInt16) :
    (c.setResourceStreamId ref streamId).handlerOf = c.handlerOf := by
  funext ref'
  unfold setResourceStreamId
  rcases hd : c.deref ref with _ | r
  · rfl
  · cases ref with
    | resource path =>
      cases ref' with
      | resource path' =>
        simp only [handlerOf, deref, SortedMap.get_set]
        split_ifs with h
        · subst h; simp only [deref] at hd; rw [hd]; rfl
        · rfl
      | event eventId => rfl
    | event eventId =>
      cases ref' with
      | resource path => rfl
      | event eventId' =>
        simp only [handlerOf, deref, SortedMap.get_set]
        split_ifs with h
        · subst h; simp only [deref] at hd; rw [hd]; rfl
        · rfl

theorem setResourceStreamId_same (c : Client) (ref : ResourceRef) (streamId : UInt16) :
    SameTables c (c.setResourceStreamId ref streamId) := by
  refine ⟨?_, ?_, ?_, handlerOf_setResourceStreamId c ref streamId⟩ <;>
    (unfold setResourceStreamId; split <;> rfl)

/-- opening a stream only points `streams_[id]` to the resource -/
theorem openStream_same (c : Client) (ref : ResourceRef) (request : IotmpMessage) :
    ∃ config, config.resource = some ref ∧
      SameTables (c.setStream request.getStreamId config) (c.openStream ref request) := by
  refine ⟨{ resource := some ref, interval := getInterval (request.get Field.PARAMETERS) }, rfl, ?_⟩
  unfold openStream
  simp only
  split_ifs
  · exact setResourceStreamId_same _ _ _
  · exact SameTables.refl _

/-- closing it only erases `streams_[id]` -/
theorem closeStream_same (c : Client) (ref : ResourceRef) (r : Resource) (streamId : UInt16) :
    SameTables (c.eraseStream streamId) (c.closeStream ref r streamId) := by
  unfold closeStream
  simp only
  split_ifs
  · obtain ⟨ho, hs, hst, hh⟩ := setResourceStreamId_same c ref 0
    exact ⟨ho, hs, by simp only [eraseStream, hst], hh⟩
  · exact SameTables.refl _

/-! ## What an event can do -/

/-- the resource a request is dispatched to -/
def target (c : Client) (request : IotmpMessage) : Option (ResourceRef × Resource) :=
  match c.resolve request with
  | .returns (some ref, _) => (c.deref ref).map fun r => (ref, r)
  | _ => none

theorem target_eq_some {c : Client} {request : IotmpMessage} {ref : ResourceRef} {r : Resource} :
    c.target request = some (ref, r) ↔
      ∃ request', c.resolve request = .returns (some ref, request') ∧ c.deref ref = some r := by
  unfold target
  rcases c.resolve request with ⟨_ | ref', request'⟩ | _
  · simp
  · rcases hd : c.deref ref' with _ | r' <;> simp [hd]
    · rintro rfl; rw [hd]; simp
    · rintro rfl; rw [hd]; simp
  · simp

/-- a request that reaches no resource changes no table -/
theorem handleResourceRequest_sends (c : Client) (request : IotmpMessage) (code : SessionCode)
    (h : c.target request = none) : OnlySends (fun _ => True) c (c.handleResourceRequest request code).1 := by
  unfold handleResourceRequest
  rcases hr : c.resolve request with ⟨_ | ref, request'⟩ | _
  · exact handleNoResource_sends c request' fun _ _ => trivial
  · rcases hd : c.deref ref with _ | r
    · simp only [hd]
      exact OnlySends.refl c
    · exact absurd (h.symm.trans (target_eq_some.2 ⟨request', hr, hd⟩)) (by simp)
  · exact OnlySends.refl c

theorem start_same (c : Client) (request : IotmpMessage) (create : Call Bool)
    (h : c.target (request.setMessageType .startStream) = none) : SameTables c (step c (.start request create)) := by
  simp only [step, handleMessage, IotmpMessage.messageType_setMessageType]
  exact (handleResourceRequest_sends c _ _ h).same

theorem stop_same (c : Client) (request : IotmpMessage) (stop : Call Unit)
    (h : c.target (request.setMessageType .stopStream) = none) : SameTables c (step c (.stop request stop)) := by
  simp only [step, handleMessage, IotmpMessage.messageType_setMessageType]
  exact (handleResourceRequest_sends c _ _ h).same

/-- **START_STREAM**, to a resource: the stream now points to it, and there is a new session iff its manager has none
under the id and `create_session` makes one. -/
theorem start_cases (c : Client) (request : IotmpMessage) (create : Call Bool) {ref : ResourceRef} {r : Resource}
    (h : c.target (request.setMessageType .startStream) = some (ref, r)) :
    ∃ config, config.resource = some ref ∧
      (SameTables (c.setStream request.getStreamId config) (step c (.start request create)) ∨
        ∃ m, r.streamHandler = some m ∧ c.sessions m request.getStreamId = none ∧ create = .returns true ∧
          SameTables { c.setStream request.getStreamId config with
              objects := c.objects ++ [{ streamId := request.getStreamId, manager := m, resource := ref }] }
            (step c (.start request create))) := by
  obtain ⟨request', hr, hd⟩ := target_eq_some.1 h
  obtain ⟨htype, hid⟩ := resolve_kept hr
  rw [IotmpMessage.getStreamId_setMessageType] at hid
  obtain ⟨config, hconfig, hopen⟩ := openStream_same c ref request'
  rw [hid] at hopen
  have hstep : step c (.start request create) = (c.handleStartStream ref r request' create).1 := by
    simp only [step, handleMessage, IotmpMessage.messageType_setMessageType, handleResourceRequest, hr, hd,
      handleResource, htype]
  refine ⟨config, hconfig, ?_⟩
  rw [hstep, handleStartStream, hid]
  simp only
  cases hh : r.streamHandler with
  | none =>
    refine Or.inl ?_
    have hsend := sendMessage_same (c.openStream ref request') (.withStreamId request.getStreamId .ok)
    rcases hm : (c.openStream ref request').sendMessage (.withStreamId request.getStreamId .ok) with ⟨c', _ | _⟩ <;>
      rw [hm] at hsend
    · exact hopen.trans hsend
    · simp only
      split_ifs
      · exact hopen.trans (hsend.trans (streamResource_same c' _ _))
      · exact hopen.trans hsend
  | some m =>
    have hsessions : (c.openStream ref request').sessions = c.sessions := hopen.sessions
    simp only [managerStart, hsessions]
    cases hs : c.sessions m request.getStreamId with
    | some i => exact Or.inl (hopen.trans (answerStart_same _ _ _ _))
    | none =>
      rcases create with ⟨_ | _⟩ | _
      · exact Or.inl (hopen.trans (answerStart_same _ _ _ _))
      · refine Or.inr ⟨m, rfl, hs, rfl, ?_⟩
        obtain ⟨ho, -, hst, hh⟩ := hopen
        exact ⟨congrArg (· ++ _) ho, rfl, hst, hh⟩
      · exact Or.inl hopen

/-- the tables after `stop` took session `i` out of a manager's table -/
def entryStopped (c : Client) (m : ManagerId) (streamId : UInt16) (i : ℕ) (stop : Call Unit) : Client :=
  match c.isAlive i, stop with
  | true, .returns () => (c.setSession m streamId none).modifySession i fun o => { o with stopped := true }
  | _, _ => c.setSession m streamId none

theorem managerStop_same (c : Client) (m : ManagerId) (streamId : UInt16) (i : ℕ) (stop : Call Unit)
    (h : c.sessions m streamId = some i) :
    SameTables (c.entryStopped m streamId i stop) (c.managerStop m streamId stop).1 := by
  have halive : (c.setSession m streamId none).isAlive i = c.isAlive i := rfl
  unfold managerStop entryStopped
  simp only [h, halive]
  cases c.isAlive i with
  | true => rcases stop with ⟨⟨⟩⟩ | _ <;> exact SameTables.refl _
  | false =>
    have hstop := stopStream_same (c.setSession m streamId none) streamId
    simp only [Bool.false_eq_true, if_false]
    rcases hm : (c.setSession m streamId none).stopStream streamId with ⟨c', _ | _⟩ <;> rw [hm] at hstop <;>
      exact hstop

theorem SameTables.entryStopped {c c' : Client} (h : SameTables c c') (m : ManagerId) (streamId : UInt16) (i : ℕ)
    (stop : Call Unit) : SameTables (c.entryStopped m streamId i stop) (c'.entryStopped m streamId i stop) := by
  obtain ⟨ho, hs, hst, hh⟩ := h
  unfold Client.entryStopped isAlive
  rw [ho]
  split
  · exact ⟨by simp only [modifySession, setSession, ho], by simp only [modifySession, setSession, hs], hst, hh⟩
  · exact ⟨ho, by simp only [setSession, hs], hst, hh⟩

/-- **STOP_STREAM**, to a resource: the stream is erased, and the session its manager has under the id, if any, is taken
out of the table and told to stop. -/
theorem stop_cases (c : Client) (request : IotmpMessage) (stop : Call Unit) {ref : ResourceRef} {r : Resource}
    (h : c.target (request.setMessageType .stopStream) = some (ref, r)) :
    ((∀ m, r.streamHandler = some m → c.sessions m request.getStreamId = none) ∧
        SameTables (c.eraseStream request.getStreamId) (step c (.stop request stop))) ∨
      ∃ m i, r.streamHandler = some m ∧ c.sessions m request.getStreamId = some i ∧
        SameTables ((c.eraseStream request.getStreamId).entryStopped m request.getStreamId i stop)
          (step c (.stop request stop)) := by
  obtain ⟨request', hr, hd⟩ := target_eq_some.1 h
  obtain ⟨htype, hid⟩ := resolve_kept hr
  rw [IotmpMessage.getStreamId_setMessageType] at hid
  have hclose := closeStream_same c ref r request.getStreamId
  have hsessions : (c.closeStream ref r request.getStreamId).sessions = c.sessions := hclose.sessions
  have hstep : step c (.stop request stop) = (c.handleStopStream ref r request' stop).1 := by
    simp only [step, handleMessage, IotmpMessage.messageType_setMessageType, handleResourceRequest, hr, hd,
      handleResource, htype]
  rw [hstep, handleStopStream, hid]
  cases hh : r.streamHandler with
  | none =>
    exact Or.inl ⟨fun m hm => (by cases hm), hclose.trans (sendMessage_same _ _)⟩
  | some m =>
    cases hs : c.sessions m request.getStreamId with
    | none =>
      refine Or.inl ⟨fun m' hm' => Option.some.inj hm' ▸ hs, ?_⟩
      simp only [managerStop, hsessions, hs]
      exact hclose.trans (sendMessage_same _ _)
    | some i =>
      refine Or.inr ⟨m, i, rfl, hs, ?_⟩
      have hstop := managerStop_same (c.closeStream ref r request.getStreamId) m request.getStreamId i stop
        (by rw [hsessions, hs])
      have hentry := hclose.entryStopped m request.getStreamId i stop
      rcases hm : (c.closeStream ref r request.getStreamId).managerStop m request.getStreamId stop with ⟨c', b | _⟩ <;>
        rw [hm] at hstop <;> simp only [hm]
      · exact hentry.trans (hstop.trans (sendMessage_same c' _))
      · exact hentry.trans hstop

/-- **The end of `session->start()`**: the session failed, or it is registered and started. -/
theorem finish_cases (c : Client) (i : ℕ) (o : Session) (outcome : Call ExecResult) (ho : c.objects[i]? = some o) :
    SameTables (c.modifySession i fun o => { o with phase := .failed }) (c.finishStart i outcome).1 ∨
      SameTables (c.registerSession i o) (c.finishStart i outcome).1 := by
  unfold finishStart
  rw [ho]
  cases outcome with
  | throws => exact Or.inl (SameTables.refl _)
  | returns result =>
    simp only
    split_ifs
    · exact Or.inr (answerStart_same _ _ _ _)
    · exact Or.inl (answerStart_same _ _ _ _)

/-- **The end of a session**: its listener, if it has one, stops what the manager has under its stream id. -/
theorem endSession_cases (c : Client) (i : ℕ) (o : Session) (ho : c.objects[i]? = some o) :
    ((o.onEnd = false ∨ c.sessions o.manager o.streamId = none) ∧
        SameTables (c.modifySession i fun o => { o with alive := false }) (c.endSession i)) ∨
      ∃ j, o.onEnd = true ∧ c.sessions o.manager o.streamId = some j ∧
        SameTables ((c.modifySession i fun o => { o with alive := false }).entryStopped o.manager o.streamId j
          (.returns ())) (c.endSession i) := by
  unfold endSession
  rw [ho]
  simp only
  cases hend : o.onEnd with
  | false => exact Or.inl ⟨Or.inl rfl, SameTables.refl _⟩
  | true =>
    cases hs : c.sessions o.manager o.streamId with
    | none =>
      refine Or.inl ⟨Or.inr rfl, ?_⟩
      have hs' : (c.modifySession i fun o => { o with alive := false }).sessions o.manager o.streamId = none := hs
      simp only [if_true, managerStop, hs']
      exact SameTables.refl _
    | some j => exact Or.inr ⟨j, rfl, rfl, managerStop_same _ _ _ _ _ hs⟩

end Iotmp.Client
