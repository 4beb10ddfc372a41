/-
Exactly one answer per request.

- `Answers c c' id n`: between the two states `n` OK or ERROR messages with stream id `id` were queued. Each handler has
  one lemma that says how many it queues; they compose by `Answers.trans`.
- `NothingThrows`: no exception leaves the code between the request and its answer. The path match may throw, and the
  user callback, `create_session`, `session->start()`, `session->stop()` and the logger on the answer.
- `one_answer_iff`: a request gets exactly one answer iff nothing throws, whatever happens while a session starts.
Witness: `one_answer_plain`. Counterexample: `throwing_callback_unanswered`.
-/
import Mathlib.Tactic
import Iotmp.Client.Requests

namespace Iotmp

/-! ## Counting answers -/

def isAnswer (streamId : UInt16) (m : IotmpMessage) : Bool :=
  (m.messageType = .ok ∨ m.messageType = .error) ∧ m.getStreamId = streamId

/-- the answers queued between two states -/
def newAnswers (c c' : Client) (streamId : UInt16) : ℕ := (c'.sent.drop c.sent.length).countP (isAnswer streamId)

/-- `n` answers were queued, and no session object was created -/
structure Answers (c c' : Client) (streamId : UInt16) (n : ℕ) : Prop where
  sent : ∃ ms, c'.sent = c.sent ++ ms ∧ ms.countP (isAnswer streamId) = n
  logging : c'.logging = c.logging
  objects : c'.objects.length = c.objects.length

namespace Answers

theorem of_eq {c c' : Client} (streamId : UInt16) (hs : c'.sent = c.sent) (hl : c'.logging = c.logging)
    (ho : c'.objects.length = c.objects.length) : Answers c c' streamId 0 :=
  ⟨⟨[], by rw [hs, List.append_nil], rfl⟩, hl, ho⟩

theorem trans {c c' c'' : Client} {streamId : UInt16} {a b : ℕ} (h : Answers c c' streamId a)
    (h' : Answers c' c'' streamId b) : Answers c c'' streamId (a + b) := by
  obtain ⟨ms, hms, hna⟩ := h.sent
  obtain ⟨ms', hms', hnb⟩ := h'.sent
  refine ⟨⟨ms ++ ms', ?_, ?_⟩, h'.logging.trans h.logging, h'.objects.trans h.objects⟩
  · rw [hms', hms, List.append_assoc]
  · rw [List.countP_append, hna, hnb]

theorem newAnswers_eq {c c' : Client} {streamId : UInt16} {n : ℕ} (h : Answers c c' streamId n) :
    newAnswers c c' streamId = n := by
  obtain ⟨ms, hms, hn⟩ := h.sent
  rw [newAnswers, hms, List.drop_left, hn]

end Answers

/-- one answer was queued if `p` holds, and none if not -/
def AnswersIff (c c' : Client) (streamId : UInt16) (p : Prop) : Prop :=
  (p → Answers c c' streamId 1) ∧ (¬ p → Answers c c' streamId 0)

namespace AnswersIff

theorem congr {c c' : Client} {streamId : UInt16} {p q : Prop} (h : AnswersIff c c' streamId p) (hpq : q ↔ p) :
    AnswersIff c c' streamId q := ⟨fun hq => h.1 (hpq.1 hq), fun hq => h.2 fun hp => hq (hpq.2 hp)⟩

theorem after {c c' c'' : Client} {streamId : UInt16} {p : Prop} (h : Answers c c' streamId 0)
    (h' : AnswersIff c' c'' streamId p) : AnswersIff c c'' streamId p :=
  ⟨fun hp => h.trans (h'.1 hp), fun hp => h.trans (h'.2 hp)⟩

theorem newAnswers_eq_one_iff {c c' : Client} {streamId : UInt16} {p : Prop} (h : AnswersIff c c' streamId p) :
    newAnswers c c' streamId = 1 ↔ p := by
  by_cases hp : p
  · exact iff_of_true (h.1 hp).newAnswers_eq hp
  · exact iff_of_false (by rw [(h.2 hp).newAnswers_eq]; exact zero_ne_one) hp

theorem objects {c c' : Client} {streamId : UInt16} {p : Prop} (h : AnswersIff c c' streamId p) :
    c'.objects.length = c.objects.length := by
  by_cases hp : p
  · exact (h.1 hp).objects
  · exact (h.2 hp).objects

end AnswersIff

/-! ## Sending -/

namespace Client

theorem sendMessage_of_logs {c : Client} {m : IotmpMessage} (h : m.Logs c.logging) :
    c.sendMessage m = ({ c with sent := c.sent ++ [m] }, true) := if_pos h

theorem sendMessage_of_not_logs {c : Client} {m : IotmpMessage} (h : ¬ m.Logs c.logging) :
    c.sendMessage m = (c, false) := if_neg h

theorem sendMessage_answers (c : Client) (m : IotmpMessage) (streamId : UInt16) :
    Answers c (c.sendMessage m).1 streamId (if m.Logs c.logging ∧ isAnswer streamId m then 1 else 0) := by
  by_cases h : m.Logs c.logging
  · rw [sendMessage_of_logs h]
    exact ⟨⟨[m], rfl, by simp [List.countP_singleton, h]⟩, rfl, rfl⟩
  · rw [sendMessage_of_not_logs h, if_neg fun h' => h h'.1]
    exact Answers.of_eq _ rfl rfl rfl

/-- an answer is queued iff it passes the logger -/
theorem sendMessage_answer (c : Client) {m : IotmpMessage} {streamId : UInt16} (ha : isAnswer streamId m) :
    AnswersIff c (c.sendMessage m).1 streamId (m.Logs c.logging) := by
  have h := sendMessage_answers c m streamId
  simp only [ha, and_true] at h
  exact ⟨fun hl => by rwa [if_pos hl] at h, fun hl => by rwa [if_neg hl] at h⟩

/-- any other message is no answer -/
theorem sendMessage_other (c : Client) {m : IotmpMessage} (streamId : UInt16) (ha : isAnswer streamId m = false) :
    Answers c (c.sendMessage m).1 streamId 0 := by
  simpa only [ha, Bool.false_eq_true, and_false, if_false] using sendMessage_answers c m streamId

end Client

/-! ## Resources keep the type and the stream id -/

theorem putOutput_messageType (response : IotmpMessage) (out : Output) :
    (Resource.putOutput response out).messageType = response.messageType := by
  unfold Resource.putOutput
  split_ifs <;> rfl

theorem putOutput_getStreamId (response : IotmpMessage) (out : Output) :
    (Resource.putOutput response out).getStreamId = response.getStreamId := by
  unfold Resource.putOutput
  split_ifs
  · rw [IotmpMessage.getStreamId_setField_ne _ _ (by decide), IotmpMessage.getStreamId_setField_ne _ _ (by decide)]
  · rw [IotmpMessage.getStreamId_setField_ne _ _ (by decide)]

theorem runResource_kept {r : Resource} {request response : IotmpMessage} {ran : Resource.Ran}
    (h : r.runResource request response = .returns ran) :
    ran.request.messageType = request.messageType ∧ ran.response.messageType = response.messageType ∧
      ran.response.getStreamId = response.getStreamId := by
  unfold Resource.runResource at h
  cases hcb : r.callback with
  | none => simp only [hcb, Call.returns.injEq] at h; subst h; exact ⟨rfl, rfl, rfl⟩
  | run f =>
    rcases f with ⟨⟨⟩⟩ | _ <;> simp only [hcb, Call.returns.injEq, reduceCtorEq] at h
    subst h; exact ⟨rfl, rfl, rfl⟩
  | input f =>
    rcases hf : f (Resource.inputOf request) with data | _ <;>
      simp only [hcb, hf, Call.returns.injEq, reduceCtorEq] at h
    subst h; exact ⟨rfl, rfl, rfl⟩
  | output f =>
    rcases hf : f { data := response.get Field.PAYLOAD } with out | _ <;>
      simp only [hcb, hf, Call.returns.injEq, reduceCtorEq] at h
    subst h; exact ⟨rfl, putOutput_messageType _ _, putOutput_getStreamId _ _⟩
  | inputOutput f =>
    rcases hf : f (Resource.inputOf request)
      { data := response.get Field.PAYLOAD, describe := Resource.isEmpty (request.get Field.PAYLOAD) } with
      ⟨data, out⟩ | _ <;>
      simp only [hcb, hf, Call.returns.injEq, reduceCtorEq] at h
    subst h; exact ⟨rfl, putOutput_messageType _ _, putOutput_getStreamId _ _⟩

theorem putDescription_kept (response : IotmpMessage) (payload : List (Bytes × Json)) :
    (Resource.putDescription response payload).messageType = response.messageType ∧
      (Resource.putDescription response payload).getStreamId = response.getStreamId := by
  unfold Resource.putDescription
  split_ifs
  · exact ⟨rfl, rfl⟩
  · exact ⟨rfl, IotmpMessage.getStreamId_setField_ne _ _ (by decide)⟩

theorem isAnswer_of {streamId : UInt16} {m : IotmpMessage} (ht : m.messageType = .ok ∨ m.messageType = .error)
    (hid : m.getStreamId = streamId) : isAnswer streamId m = true := by
  simpa only [isAnswer, hid, and_true, decide_eq_true_eq] using ht

/-! ## What the callbacks and the logger may do -/

namespace Resource

/-- `run_resource` returns, and what it puts into the answer passes the logger -/
def RunReturns (r : Resource) (logging : Bool) (request : IotmpMessage) : Prop :=
  match r.callback with
  | .none => True
  | .run f => f = .returns ()
  | .input f => ∃ data, f (inputOf request) = .returns data
  | .output f =>
    ∃ out, f { data := .null } = .returns out ∧ (logging = true → (IotmpMessage.dumpedPayload out.data).Printable)
  | .inputOutput f =>
    ∃ data out,
      f (inputOf request) { data := .null, describe := isEmpty (request.get Field.PAYLOAD) } = .returns (data, out) ∧
      (logging = true → (IotmpMessage.dumpedPayload out.data).Printable)

/-- `describe` returns, and what it puts into the answer passes the logger -/
def DescribeReturns (r : Resource) (logging : Bool) (streamId : UInt16) : Prop :=
  match r.callback with
  | .none => True
  | .run _ => True
  | .input f =>
    ∃ data, f { streamId := streamId, data := .null, describe := true } = .returns data ∧
      (logging = true → data.Printable)
  | .output f =>
    ∃ out, f { data := .null, describe := true } = .returns out ∧ (logging = true → out.data.Printable)
  | .inputOutput f =>
    ∃ data out, f { streamId := streamId, data := .null, describe := true } { data := .null, describe := true } =
      .returns (data, out) ∧ (logging = true → data.Printable ∧ out.data.Printable)

theorem putOutput_dumpable (streamId : UInt16) (out : Output) :
    (putOutput (.withStreamId streamId .ok) out).Dumpable ↔ (IotmpMessage.dumpedPayload out.data).Printable := by
  have hd : (putOutput (.withStreamId streamId .ok) out).get Field.PAYLOAD = out.data := by
    unfold putOutput
    split_ifs <;> simp [IotmpMessage.get_setField, Field.PAYLOAD, Field.PARAMETERS]
  have hr : (putOutput (.withStreamId streamId .ok) out).get Field.RESOURCE = .null := by
    unfold putOutput
    split_ifs <;> simp only [IotmpMessage.get_setField] <;> rfl
  have hp : (IotmpMessage.get (putOutput (.withStreamId streamId .ok) out) Field.PARAMETERS).Printable := by
    unfold putOutput
    split_ifs <;> simp only [IotmpMessage.get_setField] <;> rfl
  simp only [IotmpMessage.Dumpable, hd, hr]
  exact ⟨fun h => h.2.2, fun h => ⟨rfl, hp, h⟩⟩

theorem runReturns_iff (r : Resource) (logging : Bool) (request : IotmpMessage) (streamId : UInt16) :
    r.RunReturns logging request ↔
      ∃ ran, r.runResource request (.withStreamId streamId .ok) = .returns ran ∧
        (logging = true → ran.response.Dumpable) := by
  have hnull : (IotmpMessage.withStreamId streamId .ok).get Field.PAYLOAD = .null := rfl
  have hplain := IotmpMessage.dumpable_withStreamId streamId .ok
  unfold RunReturns runResource
  cases r.callback with
  | none => exact iff_of_true trivial ⟨_, rfl, fun _ => hplain⟩
  | run f =>
    rcases f with ⟨⟨⟩⟩ | _
    · exact iff_of_true rfl ⟨_, rfl, fun _ => hplain⟩
    · simp
  | input f =>
    rcases hf : f (inputOf request) with data | _
    · simp [hf, hplain]
    · simp [hf]
  | output f =>
    rcases hf : f { data := .null } with out | _
    · simp [hnull, hf, putOutput_dumpable]
    · simp [hnull, hf]
  | inputOutput f =>
    rcases hf : f (inputOf request) { data := .null, describe := isEmpty (request.get Field.PAYLOAD) } with
      ⟨data, out⟩ | _
    · simp [hnull, hf, putOutput_dumpable]
    · simp [hnull, hf]

theorem printable_null : Json.null.Printable := rfl

theorem printable_object {ms : List (Bytes × Json)} :
    (Json.object ms).Printable ↔ ∀ m ∈ ms, Utf8.valid m.1 = true ∧ m.2.Printable := by
  simp only [Json.Printable, Json.every_object, Json.printableNode, List.all_eq_true]
  exact ⟨fun h m hm => ⟨h.1 m hm, h.2 m hm⟩, fun h => ⟨fun m hm => (h m hm).1, fun m hm => (h m hm).2⟩⟩

theorem putDescription_dumpable (streamId : UInt16) (payload : List (Bytes × Json)) :
    (putDescription (.withStreamId streamId .ok) payload).Dumpable ↔ (Json.object payload).Printable := by
  unfold putDescription
  split_ifs with h
  · rw [List.isEmpty_iff.1 h]
    exact iff_of_true (IotmpMessage.dumpable_withStreamId _ _) rfl
  · simp only [IotmpMessage.Dumpable, IotmpMessage.get_setField]
    exact ⟨fun h => h.2.2, fun h => ⟨rfl, rfl, h⟩⟩

theorem describeInto_printable (key : String) (hk : Utf8.valid (text key) = true) (value : Json) :
    (Json.object (describeInto key value [])).Printable ↔ value.Printable := by
  cases value with
  | null => exact iff_of_true rfl rfl
  | _ => simp [describeInto, SortedMap.insert, printable_object, hk]

/-- the two members of an input and output resource -/
theorem describeInto_printable_both (input output : Json) :
    (Json.object (describeInto "out" output (describeInto "in" input []))).Printable ↔
      input.Printable ∧ output.Printable := by
  have hin : Utf8.valid (text "in") = true := by decide
  have hout : Utf8.valid (text "out") = true := by decide
  have hins : ∀ a b : Json, SortedMap.insert (text "out") b [(text "in", a)] = [(text "in", a), (text "out", b)] :=
    fun _ _ => rfl
  by_cases hi : input = .null
  · rw [hi]
    exact (describeInto_printable "out" hout output).trans (by simp [printable_null])
  · have hi' : describeInto "in" input [] = [(text "in", input)] := by
      cases input <;> first | exact absurd rfl hi | rfl
    by_cases ho : output = .null
    · rw [ho, hi']
      simp [describeInto, printable_object, hin, printable_null]
    · have ho' : describeInto "out" output [(text "in", input)] = [(text "in", input), (text "out", output)] := by
        cases output <;> first | exact absurd rfl ho | exact hins _ _
      rw [hi', ho']
      simp [printable_object, hin, hout]

theorem describeReturns_iff (r : Resource) (logging : Bool) (streamId : UInt16) :
    r.DescribeReturns logging streamId ↔
      ∃ response, r.describe (.withStreamId streamId .ok) = .returns response ∧
        (logging = true → response.Dumpable) := by
  have hplain := IotmpMessage.dumpable_withStreamId streamId .ok
  have hin : Utf8.valid (text "in") = true := by decide
  have hout : Utf8.valid (text "out") = true := by decide
  unfold DescribeReturns describe
  cases r.callback with
  | none => exact iff_of_true trivial ⟨_, rfl, fun _ => hplain⟩
  | run f => exact iff_of_true trivial ⟨_, rfl, fun _ => hplain⟩
  | input f =>
    rcases hf : f { streamId := streamId, data := .null, describe := true } with data | _
    · simp [hf, putDescription_dumpable, describeInto_printable _ hin]
    · simp [hf]
  | output f =>
    rcases hf : f { data := .null, describe := true } with out | _
    · simp [hf, putDescription_dumpable, describeInto_printable _ hout]
    · simp [hf]
  | inputOutput f =>
    rcases hf : f { streamId := streamId, data := .null, describe := true } { data := .null, describe := true } with
      ⟨data, out⟩ | _
    · simp [hf, putDescription_dumpable, describeInto_printable_both]
    · simp [hf]

theorem describe_kept {r : Resource} {response response' : IotmpMessage}
    (h : r.describe response = .returns response') :
    response'.messageType = response.messageType ∧ response'.getStreamId = response.getStreamId := by
  unfold describe at h
  split at h <;> (try split at h) <;> simp only [Call.returns.injEq, reduceCtorEq] at h <;> subst h <;>
    first | exact ⟨rfl, rfl⟩ | exact putDescription_kept _ _

end Resource

/-! ## The handlers -/

namespace Client

/-- the answer to a request, if it can be dumped -/
theorem sendMessage_reply (c : Client) {m : IotmpMessage} {streamId : UInt16}
    (ht : m.messageType = .ok ∨ m.messageType = .error) (hid : m.getStreamId = streamId) :
    AnswersIff c (c.sendMessage m).1 streamId (c.logging = true → m.Dumpable) := by
  refine (sendMessage_answer c (isAnswer_of ht hid)).congr (IotmpMessage.logs_iff _ ?_).symm
  rcases ht with ht | ht <;> rw [ht] <;> exact fun h => by cases h

/-- an answer without fields of its own is always queued -/
theorem sendMessage_plain (c : Client) (streamId : UInt16) {type : MessageType} (ht : type = .ok ∨ type = .error) :
    Answers c (c.sendMessage (.withStreamId streamId type)).1 streamId 1 :=
  (sendMessage_reply c ht (IotmpMessage.getStreamId_withStreamId _ _)).1 fun _ => IotmpMessage.dumpable_withStreamId _ _

theorem sendMessage_plain_returns (c : Client) (streamId : UInt16) (type : MessageType) :
    (c.sendMessage (.withStreamId streamId type)).2 = true := by
  rw [sendMessage_of_logs fun _ _ => IotmpMessage.dumpable_withStreamId streamId type]

/-- an echo is stream data -/
theorem streamResource_answers (c : Client) (r : Resource) (streamId streamId' : UInt16) :
    Answers c (c.streamResource r streamId).1 streamId' 0 := by
  unfold streamResource
  rcases h : r.runResource { messageType := .streamData } { messageType := .streamData } with ran | _
  · obtain ⟨hreq, hresp, -⟩ := runResource_kept h
    have htype : ∀ m : IotmpMessage, m.messageType = .streamData →
        isAnswer streamId' (m.setStreamId streamId) = false :=
      fun m hm => by simp [isAnswer, hm]
    simp only
    split_ifs
    · exact sendMessage_other c _ (htype _ hresp)
    · exact sendMessage_other c _ (htype _ hreq)
    · exact Answers.of_eq _ rfl rfl rfl
  · exact Answers.of_eq _ rfl rfl rfl

theorem handleRun_answers (c : Client) (r : Resource) (request : IotmpMessage) :
    AnswersIff c (c.handleRun r request).1 request.getStreamId (r.RunReturns c.logging request) := by
  refine AnswersIff.congr ?_ (Resource.runReturns_iff r c.logging request request.getStreamId)
  unfold handleRun
  rcases h : r.runResource request (.withStreamId request.getStreamId .ok) with ran | _
  · obtain ⟨-, -, hid⟩ := runResource_kept h
    have htype : (ran.response.setMessageType (if ran.success then .ok else .error)).messageType = .ok ∨
        (ran.response.setMessageType (if ran.success then .ok else .error)).messageType = .error := by
      cases ran.success <;> simp
    refine AnswersIff.congr (sendMessage_reply c htype (hid.trans (IotmpMessage.getStreamId_withStreamId _ _))) ?_
    simp [IotmpMessage.Dumpable]
  · exact ⟨by simp, fun _ => Answers.of_eq _ rfl rfl rfl⟩

theorem handleDescribe_answers (c : Client) (r : Resource) (request : IotmpMessage) :
    AnswersIff c (c.handleDescribe r request).1 request.getStreamId
      (r.DescribeReturns c.logging request.getStreamId) := by
  refine AnswersIff.congr ?_ (Resource.describeReturns_iff r c.logging request.getStreamId)
  unfold handleDescribe
  rcases h : r.describe (.withStreamId request.getStreamId .ok) with response | _
  · obtain ⟨ht, hid⟩ := Resource.describe_kept h
    refine AnswersIff.congr
      (sendMessage_reply c (Or.inl ht) (hid.trans (IotmpMessage.getStreamId_withStreamId _ _))) ?_
    simp
  · exact ⟨by simp, fun _ => Answers.of_eq _ rfl rfl rfl⟩

theorem answerStart_answers (c : Client) (streamId : UInt16) (ref : ResourceRef) (result : ExecResult) :
    AnswersIff c (c.answerStart streamId ref result).1 streamId (c.logging = true → result.message.Dumpable) := by
  have hsend := sendMessage_reply c (m := result.message.setStreamId streamId) result.answers
    (IotmpMessage.getStreamId_setStreamId _ _)
  simp only [IotmpMessage.dumpable_setStreamId] at hsend
  unfold answerStart
  rcases h : c.sendMessage (result.message.setStreamId streamId) with ⟨c', _ | _⟩ <;> rw [h] at hsend
  · exact hsend
  · -- the echo after the answer is no answer, whether it returns or throws
    have hecho : ∀ p : Prop, AnswersIff c c' streamId p → ∀ c'', Answers c' c'' streamId 0 →
        AnswersIff c c'' streamId p :=
      fun p hp c'' hc => ⟨fun h1 => (hp.1 h1).trans hc, fun h0 => (hp.2 h0).trans hc⟩
    refine hecho _ hsend _ ?_
    simp only
    split
    · exact Answers.of_eq _ rfl rfl rfl
    · split_ifs
      · exact streamResource_answers _ _ _ _
      · exact Answers.of_eq _ rfl rfl rfl

theorem dumpable_ofBool (success : Bool) : (ExecResult.ofBool success).message.Dumpable := ⟨rfl, rfl, rfl⟩

theorem openStream_answers (c : Client) (ref : ResourceRef) (request : IotmpMessage) (streamId : UInt16) :
    Answers c (c.openStream ref request) streamId 0 := by
  unfold openStream setResourceStreamId
  simp only
  split_ifs
  · split <;> exact Answers.of_eq _ rfl rfl rfl
  · exact Answers.of_eq _ rfl rfl rfl

theorem closeStream_answers (c : Client) (ref : ResourceRef) (r : Resource) (streamId streamId' : UInt16) :
    Answers c (c.closeStream ref r streamId) streamId' 0 := by
  unfold closeStream setResourceStreamId
  simp only
  split_ifs
  · split <;> exact Answers.of_eq _ rfl rfl rfl
  · exact Answers.of_eq _ rfl rfl rfl

theorem openStream_sessions (c : Client) (ref : ResourceRef) (request : IotmpMessage) :
    (c.openStream ref request).sessions = c.sessions := by
  unfold openStream setResourceStreamId
  simp only
  split_ifs
  · split <;> rfl
  · rfl

theorem closeStream_sessions (c : Client) (ref : ResourceRef) (r : Resource) (streamId : UInt16) :
    (c.closeStream ref r streamId).sessions = c.sessions ∧ (c.closeStream ref r streamId).objects = c.objects := by
  unfold closeStream setResourceStreamId
  simp only
  split_ifs
  · split <;> exact ⟨rfl, rfl⟩
  · exact ⟨rfl, rfl⟩

/-! ## Streams -/

/-- the request leaves a session starting -/
def StartsSession (c : Client) (r : Resource) (streamId : UInt16) (create : Call Bool) : Prop :=
  ∃ manager, r.streamHandler = some manager ∧ c.sessions manager streamId = none ∧ create = .returns true

/-- a START_STREAM that leaves no session starting is answered unless `create_session` throws -/
def StartReturns (c : Client) (r : Resource) (streamId : UInt16) (create : Call Bool) : Prop :=
  ∀ manager, r.streamHandler = some manager → c.sessions manager streamId = none → create ≠ .throws

/-- no exception leaves the start of a session, and its result passes the logger -/
def FinishReturns (logging : Bool) : Call ExecResult → Prop
  | .throws => False
  | .returns result => logging = true → result.message.Dumpable

theorem handleStartStream_starts (c : Client) (ref : ResourceRef) (r : Resource) (request : IotmpMessage)
    (create : Call Bool) (h : c.StartsSession r request.getStreamId create) :
    (c.handleStartStream ref r request create).1.sent = c.sent ∧
      (c.handleStartStream ref r request create).1.logging = c.logging ∧
      ∃ o, (c.handleStartStream ref r request create).1.objects = c.objects ++ [o] ∧
        o.streamId = request.getStreamId := by
  obtain ⟨manager, hh, hs, rfl⟩ := h
  have hopen : (c.openStream ref request).sent = c.sent ∧ (c.openStream ref request).logging = c.logging ∧
      (c.openStream ref request).objects = c.objects := by
    unfold openStream setResourceStreamId
    simp only
    split_ifs
    · split <;> exact ⟨rfl, rfl, rfl⟩
    · exact ⟨rfl, rfl, rfl⟩
  simp only [handleStartStream, hh, managerStart, openStream_sessions, hs, hopen, true_and]
  exact ⟨_, rfl, rfl⟩

theorem handleStartStream_answers (c : Client) (ref : ResourceRef) (r : Resource) (request : IotmpMessage)
    (create : Call Bool) (h : ¬ c.StartsSession r request.getStreamId create) :
    AnswersIff c (c.handleStartStream ref r request create).1 request.getStreamId
      (c.StartReturns r request.getStreamId create) := by
  have hopen := openStream_answers c ref request request.getStreamId
  refine AnswersIff.after hopen ?_
  have hrefuse : ∀ p : Prop, p → AnswersIff (c.openStream ref request)
      ((c.openStream ref request).answerStart request.getStreamId ref (.ofBool false)).1 request.getStreamId p :=
    fun p hp => (answerStart_answers _ _ _ _).congr (iff_of_true hp fun _ => dumpable_ofBool false)
  simp only [handleStartStream]
  cases hh : r.streamHandler with
  | none =>
    have hsend := sendMessage_plain (c.openStream ref request) request.getStreamId (Or.inl rfl)
    have hret := sendMessage_plain_returns (c.openStream ref request) request.getStreamId .ok
    refine ⟨fun _ => ?_, fun h => absurd (fun m hm => by rw [hh] at hm; cases hm) h⟩
    rcases hm : (c.openStream ref request).sendMessage (.withStreamId request.getStreamId .ok) with ⟨c', _ | _⟩ <;>
      rw [hm] at hsend hret
    · exact absurd hret Bool.false_ne_true
    · simp only
      split_ifs
      · exact hsend.trans (streamResource_answers _ _ _ _)
      · exact hsend
  | some manager =>
    simp only [managerStart, openStream_sessions]
    cases hs : c.sessions manager request.getStreamId with
    | some i =>
      refine hrefuse _ fun m hm hnone => ?_
      rw [hh] at hm
      obtain rfl := Option.some.inj hm
      exact absurd (hs.symm.trans hnone) (by simp)
    | none =>
      rcases create with ⟨_ | _⟩ | _
      · exact hrefuse _ fun m hm hnone => by simp
      · exact absurd ⟨manager, hh, hs, rfl⟩ h
      · exact ⟨fun h => absurd rfl (h manager hh hs), fun _ => Answers.of_eq _ rfl rfl rfl⟩

theorem registerSession_answers (c : Client) (i : ℕ) (o : Session) (streamId : UInt16) :
    Answers c (c.registerSession i o) streamId 0 := by
  obtain ⟨sessions, heq⟩ := registerSession_eq c i o
  rw [heq]
  exact Answers.of_eq _ rfl rfl (List.length_modify _ _ _)

/-- the answer of a session that was starting -/
theorem finishStart_answers (c : Client) (i : ℕ) (o : Session) (ho : c.objects[i]? = some o)
    (outcome : Call ExecResult) :
    AnswersIff c (c.finishStart i outcome).1 o.streamId (FinishReturns c.logging outcome) := by
  have hmodify : ∀ f, Answers c (c.modifySession i f) o.streamId 0 :=
    fun f => Answers.of_eq _ rfl rfl (List.length_modify _ _ _)
  unfold finishStart
  rw [ho]
  cases outcome with
  | throws => exact ⟨fun h => h.elim, fun _ => hmodify _⟩
  | returns result =>
    simp only [FinishReturns]
    split_ifs
    · have hr := registerSession_answers c i o o.streamId
      exact AnswersIff.after hr (hr.logging ▸ answerStart_answers _ _ _ _)
    · exact AnswersIff.after (hmodify _) (answerStart_answers (c.modifySession i _) _ _ _)

theorem stopStream_other (c : Client) (streamId streamId' : UInt16) :
    Answers c (c.stopStream streamId).1 streamId' 0 ∧ (c.stopStream streamId).2 = true := by
  unfold stopStream
  split_ifs
  · exact ⟨sendMessage_other c _ (by simp [isAnswer]), sendMessage_plain_returns c streamId .stopStream⟩
  · exact ⟨Answers.of_eq _ rfl rfl rfl, rfl⟩

/-- `session->stop()` is called, and throws -/
def StopThrows (c : Client) (manager : ManagerId) (streamId : UInt16) (stop : Call Unit) : Prop :=
  stop = .throws ∧ ∃ i, c.sessions manager streamId = some i ∧ c.isAlive i = true

theorem managerStop_answers (c : Client) (manager : ManagerId) (streamId streamId' : UInt16) (stop : Call Unit) :
    Answers c (c.managerStop manager streamId stop).1 streamId' 0 ∧
      ((c.managerStop manager streamId stop).2 = .throws ↔ c.StopThrows manager streamId stop) := by
  unfold managerStop StopThrows
  cases hs : c.sessions manager streamId with
  | none => exact ⟨Answers.of_eq _ rfl rfl rfl, by simp⟩
  | some i =>
    have halive : (c.setSession manager streamId none).isAlive i = c.isAlive i := rfl
    have hset : Answers c (c.setSession manager streamId none) streamId' 0 := Answers.of_eq _ rfl rfl rfl
    simp only [halive]
    by_cases ha : c.isAlive i = true
    · rw [if_pos ha]
      rcases stop with ⟨⟨⟩⟩ | _
      · exact ⟨Answers.of_eq _ rfl rfl (List.length_modify _ _ _), by simp⟩
      · exact ⟨hset, by simp [ha]⟩
    · rw [if_neg ha]
      obtain ⟨hstop, hret⟩ := stopStream_other (c.setSession manager streamId none) streamId streamId'
      rcases h : (c.setSession manager streamId none).stopStream streamId with ⟨c', _ | _⟩ <;> rw [h] at hstop hret
      · exact absurd hret Bool.false_ne_true
      · exact ⟨hset.trans hstop, by simp [ha]⟩

/-- a STOP_STREAM is answered unless `session->stop()` throws -/
def StopReturns (c : Client) (r : Resource) (streamId : UInt16) (stop : Call Unit) : Prop :=
  ∀ manager, r.streamHandler = some manager → ¬ c.StopThrows manager streamId stop

theorem handleStopStream_answers (c : Client) (ref : ResourceRef) (r : Resource) (request : IotmpMessage)
    (stop : Call Unit) :
    AnswersIff c (c.handleStopStream ref r request stop).1 request.getStreamId
      (c.StopReturns r request.getStreamId stop) := by
  have hclose := closeStream_answers c ref r request.getStreamId request.getStreamId
  obtain ⟨hsessions, hobjects⟩ := closeStream_sessions c ref r request.getStreamId
  have hthrows : ∀ m, (c.closeStream ref r request.getStreamId).StopThrows m request.getStreamId stop ↔
      c.StopThrows m request.getStreamId stop := fun m => by simp only [StopThrows, isAlive, hsessions, hobjects]
  refine AnswersIff.after hclose ?_
  simp only [handleStopStream]
  cases hh : r.streamHandler with
  | none =>
    exact ⟨fun _ => sendMessage_plain _ _ (Or.inl rfl), fun h => absurd (fun m hm => by rw [hh] at hm; cases hm) h⟩
  | some manager =>
    obtain ⟨hstop, hiff⟩ := managerStop_answers (c.closeStream ref r request.getStreamId) manager request.getStreamId
      request.getStreamId stop
    have hcond : c.StopReturns r request.getStreamId stop ↔ ¬ c.StopThrows manager request.getStreamId stop :=
      ⟨fun h => h manager hh, fun h m hm => by rw [hh] at hm; obtain rfl := Option.some.inj hm; exact h⟩
    refine AnswersIff.congr (p := ¬ c.StopThrows manager request.getStreamId stop) ?_ hcond
    rw [← hthrows, ← hiff]
    rcases hm : (c.closeStream ref r request.getStreamId).managerStop manager request.getStreamId stop with
      ⟨c', stopped | _⟩ <;> simp only [hm] at hstop ⊢
    · have hreply := sendMessage_reply c' (m := (ExecResult.ofBool stopped).message.setStreamId request.getStreamId)
        (ExecResult.ofBool stopped).answers (IotmpMessage.getStreamId_setStreamId _ _)
      refine AnswersIff.after hstop (hreply.congr (iff_of_true (fun h => by cases h) fun _ => ?_))
      exact (IotmpMessage.dumpable_setStreamId _ _).2 (dumpable_ofBool _)
    · exact ⟨fun h => absurd trivial h, fun _ => hstop⟩

/-! ## Requests without a resource -/

theorem foldl_insert_fillApi (entries : List (Bytes × Resource)) (h : SortedMap.Ordered entries) :
    entries.foldl (fun api e => SortedMap.insert e.1 e.2.fillApi api) [] =
      entries.map fun e => (e.1, e.2.fillApi) := by
  have hord : SortedMap.Ordered ([] ++ entries.map fun e => (e.1, e.2.fillApi)) := List.pairwise_map.2 h
  have hfold := SortedMap.foldl_insert [] (entries.map fun e => (e.1, e.2.fillApi)) hord
  rwa [List.foldl_map] at hfold

theorem printable_fillApi (r : Resource) : r.fillApi.Printable := by
  unfold Resource.fillApi
  cases r.ioType <;> decide

theorem describeApi_kept (c : Client) (response : IotmpMessage) :
    (c.describeApi response).messageType = response.messageType ∧
      (c.describeApi response).getStreamId = response.getStreamId := by
  unfold describeApi
  split
  · exact ⟨rfl, rfl⟩
  · exact ⟨rfl, IotmpMessage.getStreamId_setField_ne _ _ (by decide)⟩

/-- the API listing can be dumped iff every registered path is valid UTF-8 -/
theorem describeApi_dumpable (c : Client) (streamId : UInt16) :
    (c.describeApi (.withStreamId streamId .ok)).Dumpable ↔ ∀ e ∈ c.resources.entries, Utf8.valid e.1 = true := by
  have hfold := foldl_insert_fillApi c.resources.entries c.resources.ordered
  unfold describeApi
  split
  · next h => simp [h, IotmpMessage.dumpable_withStreamId]
  · rw [hfold]
    simp only [IotmpMessage.Dumpable, IotmpMessage.get_setField]
    refine Iff.trans ⟨fun h => h.2.2, fun h => ⟨rfl, rfl, h⟩⟩ ?_
    simp only [if_true, IotmpMessage.dumpedPayload, Resource.printable_object, List.forall_mem_map, printable_fillApi,
      and_true]

/-- the listing, if that is what is asked for, passes the logger -/
def ListingReturns (c : Client) (request : IotmpMessage) : Prop :=
  request.messageType = .describe → ¬ request.hasField Field.RESOURCE → c.logging = true →
    ∀ e ∈ c.resources.entries, Utf8.valid e.1 = true

theorem handleNoResource_answers (c : Client) (request : IotmpMessage) (ht : request.messageType ≠ .streamData) :
    AnswersIff c (c.handleNoResource request).1 request.getStreamId (c.ListingReturns request) := by
  unfold handleNoResource
  split_ifs with h
  · obtain ⟨htype, hid⟩ := describeApi_kept c (.withStreamId request.getStreamId .ok)
    refine AnswersIff.congr (sendMessage_reply c (Or.inl htype) (hid.trans (by simp))) ?_
    rw [describeApi_dumpable]
    exact ⟨fun hl => hl h.1 h.2, fun hl _ _ => hl⟩
  · exact ⟨fun _ => sendMessage_plain c _ (Or.inr rfl), fun hl => absurd (fun h1 h2 => absurd ⟨h1, h2⟩ h) hl⟩

/-! ## The whole request -/

/-- what a START_STREAM named, if it leaves a session starting -/
def LeavesStart (c : Client) (request : IotmpMessage) (code : SessionCode) : Prop :=
  (c.handleMessage request code).1.objects.length = c.objects.length + 1

instance (c : Client) (request : IotmpMessage) (code : SessionCode) : Decidable (c.LeavesStart request code) :=
  inferInstanceAs (Decidable (_ = _))

/-- No exception leaves the code between the request and its answer.
- The path match does not index into a field 0 that is neither null nor an object.
- The callback, `create_session`, `session->start()` and `session->stop()`, where the request calls them, return.
- With logging on, what they put into the answer can be dumped; for the API listing, the registered paths can.
- The resource pointer is not dangling. -/
def NothingThrows (c : Client) (request : IotmpMessage) (code : SessionCode) (outcome : Call ExecResult) : Prop :=
  match c.resolve request with
  | .throws => False
  | .returns (none, request) => c.ListingReturns request
  | .returns (some ref, request) =>
    match c.deref ref with
    | none => False
    | some r =>
      match request.messageType with
      | .run => r.RunReturns c.logging request
      | .describe => r.DescribeReturns c.logging request.getStreamId
      | .startStream =>
        c.StartReturns r request.getStreamId code.create ∧
          (c.StartsSession r request.getStreamId code.create → FinishReturns c.logging outcome)
      | .stopStream => c.StopReturns r request.getStreamId code.stop
      | _ => True

/-- the message types that are answered -/
def isRequest (type : MessageType) : Bool := type ∈ [.run, .describe, .startStream, .stopStream]

theorem handleMessage_request (c : Client) (request : IotmpMessage) (code : SessionCode)
    (ht : isRequest request.messageType) : c.handleMessage request code = c.handleResourceRequest request code := by
  unfold handleMessage
  cases h : request.messageType <;> first | rfl | (rw [h] at ht; exact absurd ht (by simp [isRequest]))

/-- either the request is answered in the handler, or it leaves a session starting -/
theorem handleMessage_answers (c : Client) (request : IotmpMessage) (code : SessionCode) (outcome : Call ExecResult)
    (ht : isRequest request.messageType) :
    AnswersIff c (c.handleMessage request code).1 request.getStreamId (c.NothingThrows request code outcome) ∨
      ((c.handleMessage request code).1.sent = c.sent ∧ (c.handleMessage request code).1.logging = c.logging ∧
        (∃ o, (c.handleMessage request code).1.objects = c.objects ++ [o] ∧ o.streamId = request.getStreamId) ∧
        (c.NothingThrows request code outcome ↔ FinishReturns c.logging outcome)) := by
  rw [handleMessage_request c request code ht]
  unfold handleResourceRequest NothingThrows
  have hnone : ∀ p : Prop, ¬ p → AnswersIff c c request.getStreamId p :=
    fun p hp => ⟨fun h => absurd h hp, fun _ => Answers.of_eq _ rfl rfl rfl⟩
  rcases hr : c.resolve request with ⟨ref, request'⟩ | _
  · obtain ⟨htype, hid⟩ := resolve_kept hr
    rw [← htype] at ht
    rw [← hid]
    rcases ref with _ | ref
    · refine Or.inl (handleNoResource_answers c request' fun h => ?_)
      rw [h] at ht
      exact absurd ht (by decide)
    · simp only
      rcases hd : c.deref ref with _ | r
      · exact Or.inl (hid ▸ hnone _ id)
      · simp only [handleResource]
        cases hm : request'.messageType with
        | run => exact Or.inl (handleRun_answers c r request')
        | describe => exact Or.inl (handleDescribe_answers c r request')
        | startStream =>
          by_cases hs : c.StartsSession r request'.getStreamId code.create
          · -- the answer is the session's to give
            obtain ⟨h1, h2, h3⟩ := handleStartStream_starts c ref r request' code.create hs
            have hret : c.StartReturns r request'.getStreamId code.create := fun m _ _ hc => by
              obtain ⟨-, -, -, hcreate⟩ := hs
              rw [hcreate] at hc; cases hc
            exact Or.inr ⟨h1, h2, h3, fun h => h.2 hs, fun h => ⟨hret, fun _ => h⟩⟩
          · exact Or.inl ((handleStartStream_answers c ref r request' code.create hs).congr
              ⟨fun h => h.1, fun h => ⟨h, fun hs' => absurd hs' hs⟩⟩)
        | stopStream => exact Or.inl (handleStopStream_answers c ref r request' code.stop)
        | _ => rw [hm] at ht; exact absurd ht (by simp [isRequest])
  · exact Or.inl (hnone _ id)

/-- the answers a request gets: those its handler queues, and, if it leaves a session starting, those queued when
`session->start()` is done, in whatever state `later` that is -/
def answersTo (c : Client) (request : IotmpMessage) (code : SessionCode) (later : Client)
    (outcome : Call ExecResult) : ℕ :=
  newAnswers c (c.handleMessage request code).1 request.getStreamId +
    if c.LeavesStart request code then
      newAnswers later (later.finishStart c.objects.length outcome).1 request.getStreamId
    else 0

/-- `later` still holds the session that `c` left starting, and logs as `c` does -/
structure Awaits (c later : Client) (i : ℕ) : Prop where
  session : later.objects[i]? = c.objects[i]?
  logging : later.logging = c.logging

/-- **Exactly one answer.** For every client state, every request and every behaviour of the code it calls, and whatever
happens while a session starts, the request gets exactly one answer iff nothing throws on the way to it. -/
theorem one_answer_iff (c : Client) (request : IotmpMessage) (code : SessionCode) (later : Client)
    (outcome : Call ExecResult) (ht : isRequest request.messageType)
    (hl : (c.handleMessage request code).1.Awaits later c.objects.length) :
    c.answersTo request code later outcome = 1 ↔ c.NothingThrows request code outcome := by
  unfold answersTo
  rcases handleMessage_answers c request code outcome ht with h | ⟨hsent, hlog, ⟨o, hobjs, ho⟩, hiff⟩
  · have hno : ¬ c.LeavesStart request code := by rw [LeavesStart, h.objects]; omega
    rw [if_neg hno, Nat.add_zero, h.newAnswers_eq_one_iff]
  · have hyes : c.LeavesStart request code := by rw [LeavesStart, hobjs, List.length_append]; rfl
    have hquiet : newAnswers c (c.handleMessage request code).1 request.getStreamId = 0 := by
      rw [newAnswers, hsent, List.drop_length]; rfl
    have hsession : later.objects[c.objects.length]? = some o := by
      rw [hl.session, hobjs, List.getElem?_concat_length]
    have hfinish := finishStart_answers later c.objects.length o hsession outcome
    rw [hl.logging, hlog, ho] at hfinish
    rw [if_pos hyes, hquiet, Nat.zero_add, hfinish.newAnswers_eq_one_iff, hiff]

/-- one resource, `led`, with the callback `f` -/
def ledClient (f : Call Unit) : Client := { resources := SortedMap.empty.set (text "led") { callback := .run f } }

def runLed : IotmpMessage := (IotmpMessage.withStreamId 7 .run).setField Field.RESOURCE (.string (text "led"))

theorem one_answer_plain :
    (ledClient (.returns ())).answersTo runLed {} ((ledClient (.returns ())).handleMessage runLed {}).1 .throws = 1 :=
  (one_answer_iff _ runLed {} _ .throws (by decide) ⟨rfl, rfl⟩).2 rfl

/-- a RUN whose callback throws is never answered -/
theorem throwing_callback_unanswered :
    (ledClient .throws).answersTo runLed {} ((ledClient .throws).handleMessage runLed {}).1 .throws = 0 := by
  decide

end Client

end Iotmp
