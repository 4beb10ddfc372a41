/-
Calls to the server (`client.hpp`: `get_property`, `set_property`, `write_bucket`, `call_endpoint`, `call_device`,
`lock_sync`, `unlock_sync`, and under them `send_message_with_ack`, `send_message_with_response`, `wait_response`).

- `ServerCall`: a call with its arguments. `request`: the message it sends.
- `Client.awaitResponse`: `wait_response` on what the socket still delivers, while nobody else reads. There is one
  `SessionCode` for each message that it may hand to `handle_message`.
- `ServerCall.Plain`: arguments that the codec keeps and the logger prints.
- `call_answered`: what the server reads is the call, and what the call returns is the server's answer, whatever messages
  come before the answer and whatever follows it. If the connection ends before the answer is complete, the call fails.
Witness: `call_answered_property`.
-/
import Mathlib.Tactic
import Iotmp.Client.MessageTransport
import Iotmp.Client.Events

namespace Iotmp

open Json

/-! ## The calls -/

/-- `server::run`, the calls of it -/
inductive ServerRun where
  | readDeviceProperty
  | setDeviceProperty
  | callDevice
  | callEndpoint
  | writeBucket
  | lockSync
  | unlockSync

def ServerRun.code : ServerRun → UInt32
  | readDeviceProperty => 0x01
  | setDeviceProperty => 0x02
  | callDevice => 0x03
  | callEndpoint => 0x04
  | writeBucket => 0x05
  | lockSync => 0x06
  | unlockSync => 0x07

inductive ServerCall where
  | getProperty (propertyId : Bytes)
  | setProperty (propertyId : Bytes) (data : Json) (confirm : Bool)
  | writeBucket (bucketId : Bytes) (data : Json) (confirm : Bool)
  | callEndpoint (endpointName : Bytes) (data : Option Json) (confirm : Bool)
  | callDevice (device resource : Bytes) (data : Option Json) (confirm : Bool)
  | lockSync (syncId lockId : Bytes) (slots timeoutSeconds : UInt16)
  | unlockSync (syncId lockId : Bytes)

namespace ServerCall

def run : ServerCall → ServerRun
  | getProperty _ => .readDeviceProperty
  | setProperty _ _ _ => .setDeviceProperty
  | writeBucket _ _ _ => .writeBucket
  | callEndpoint _ _ _ => .callEndpoint
  | callDevice _ _ _ _ => .callDevice
  | lockSync _ _ _ _ => .lockSync
  | unlockSync _ _ => .unlockSync

def parameters : ServerCall → Json
  | getProperty propertyId => .string propertyId
  | setProperty propertyId _ _ => .string propertyId
  | writeBucket bucketId _ _ => .string bucketId
  | callEndpoint endpointName _ _ => .string endpointName
  | callDevice device resource _ _ => .array [.string device, .string resource]
  | lockSync syncId _ _ _ => .string syncId
  | unlockSync syncId _ => .string syncId

/-- the members that `lock_sync` assigns to its payload -/
def lockMembers (lockId : Bytes) (slots timeoutSeconds : UInt16) : List (String × Json) :=
  (if lockId ≠ [] then [("lock", .string lockId)] else []) ++
    (if 1 < slots then [("slots", .numberUnsigned slots.toUInt64)] else []) ++
      if 0 < timeoutSeconds then [("timeout", .numberUnsigned timeoutSeconds.toUInt64)] else []

/-- `msg[PAYLOAD][key] = value` for each of them -/
def assignMembers (members : List (String × Json)) : Json :=
  .object (members.foldl (fun ms m => SortedMap.insert (text m.1) m.2 ms) [])

def payload : ServerCall → Option Json
  | getProperty _ => none
  | setProperty _ data _ => some data
  | writeBucket _ data _ => some data
  | callEndpoint _ data _ => data
  | callDevice _ _ data _ => data
  | lockSync _ lockId slots timeoutSeconds =>
    if lockMembers lockId slots timeoutSeconds = [] then none
    else some (assignMembers (lockMembers lockId slots timeoutSeconds))
  | unlockSync _ lockId => some (assignMembers [("lock", .string lockId)])

/-- whether the call waits for the answer: `wait_ack`, and always in `send_message_with_response` -/
def waits : ServerCall → Bool
  | setProperty _ _ confirm => confirm
  | writeBucket _ _ confirm => confirm
  | callEndpoint _ _ confirm => confirm
  | callDevice _ _ _ confirm => confirm
  | _ => true

/-- `send_message_with_response` -/
def wantsPayload : ServerCall → Bool
  | getProperty _ => true
  | _ => false

def message (call : ServerCall) : IotmpMessage :=
  let message := (({ messageType := .run } : IotmpMessage).setField Field.RESOURCE
    (.numberUnsigned call.run.code.toUInt64)).setField Field.PARAMETERS call.parameters
  match call.payload with
  | none => message
  | some data => message.setField Field.PAYLOAD data

/-- the message that is written; `streamId` is what `set_random_stream_id` draws -/
def request (call : ServerCall) (streamId : UInt16) : IotmpMessage :=
  if call.waits ∧ call.message.getStreamId = 0 then call.message.setStreamId streamId else call.message

end ServerCall

/-! ## Waiting -/

inductive Answer where
  | waiting
  | returned (success : Bool) (payload : Option Json)
  | thrown

structure Exchanged where
  client : Client
  /-- what the socket still delivers -/
  input : Bytes
  answer : Answer

namespace Client

/-- `wait_response`; the log level is the process's -/
def awaitResponse (logging : Bool) (request : IotmpMessage) (wantsPayload : Bool) :
    List SessionCode → Client → Bytes → Exchanged
  | [], c, input => ⟨c, input, .waiting⟩
  | code :: codes, c, input =>
    match readMessage logging input with
    | (outcome, input) =>
      match consume (.waitResponse request wantsPayload) outcome with
      | .throws => ⟨c, input, .thrown⟩
      | .disconnected => ⟨c, input, .returned false none⟩
      | .answer success payload => ⟨c, input, .returned success payload⟩
      | .handle m =>
        match c.handleMessage m code with
        | (c, false) => ⟨c, input, .thrown⟩
        | (c, true) => awaitResponse logging request wantsPayload codes c input

/-- a call, from its request on: `write_message`, and the answer if it waits -/
def callServer (c : Client) (call : ServerCall) (streamId : UInt16) (written : Bool) (codes : List SessionCode)
    (input : Bytes) : Exchanged :=
  let request := call.request streamId
  if request.Logs c.logging then
    if written then
      if call.waits then awaitResponse c.logging request call.wantsPayload codes c input
      else ⟨c, input, .returned true none⟩
    else ⟨{ c with connected := false }, input, .returned false none⟩
  else ⟨c, input, .thrown⟩

/-- `handle_message` on one message after the other; false if one of them throws -/
def handleMessages : List (IotmpMessage × SessionCode) → Client → Client × Bool
  | [], c => (c, true)
  | (m, code) :: ms, c =>
    match c.handleMessage m code with
    | (c, false) => (c, false)
    | (c, true) => handleMessages ms c

end Client

/-! ## Values that arrive and print -/

/-- a text that arrives and prints -/
structure PlainText (s : Bytes) : Prop where
  size : s.length ≤ UINT32_MAX
  nulFree : nulFreeString s = true
  utf8 : Utf8.valid s = true

/-- a value inside a field -/
structure PlainValue (v : Json) : Prop where
  sendable : Codec.Sendable v
  printable : v.Printable

/-- the value of a field; a binary payload is not printed -/
structure PlainData (v : Json) : Prop where
  sendable : Codec.Sendable v
  fits : Codec.FitsVarint v
  printable : (IotmpMessage.dumpedPayload v).Printable

theorem PlainText.value {s : Bytes} (h : PlainText s) : PlainValue (.string s) where
  sendable := ⟨rfl, by simpa [Portable, every, portableNode] using h.size, h.nulFree⟩
  printable := h.utf8

theorem PlainText.data {s : Bytes} (h : PlainText s) : PlainData (.string s) where
  sendable := h.value.sendable
  fits := by
    intro n hn
    exact absurd hn (by simp [intValue])
  printable := h.utf8

theorem plainValue_unsigned (n : UInt64) : PlainValue (.numberUnsigned n) := ⟨⟨rfl, rfl, rfl⟩, rfl⟩

theorem fitsVarint_unsigned {n : UInt64} (h : n.toNat < 2 ^ 32) : Codec.FitsVarint (.numberUnsigned n) := by
  intro k hk
  obtain rfl : (n.toNat : ℤ) = k := by simpa [intValue] using hk
  omega

theorem plainData_array {es : List Json} (hlength : es.length < 2 ^ 64) (h : ∀ e ∈ es, PlainValue e) :
    PlainData (.array es) where
  sendable := by
    refine ⟨(every_array _ _).2 ⟨?_, fun e he => (h e he).sendable.wellFormed⟩,
      (every_array _ _).2 ⟨rfl, fun e he => (h e he).sendable.portable⟩,
      (every_array _ _).2 ⟨rfl, fun e he => (h e he).sendable.nulFree⟩⟩
    simpa [wellFormedNode] using hlength
  fits := by
    intro n hn
    exact absurd hn (by simp [intValue])
  printable := printable_array.2 fun e he => (h e he).printable

theorem plainData_object {ms : List (Bytes × Json)} (hlength : ms.length < 2 ^ 64) (horder : SortedMap.Ordered ms)
    (h : ∀ m ∈ ms, PlainText m.1 ∧ PlainValue m.2) : PlainData (.object ms) where
  sendable := by
    refine ⟨(every_object _ _).2 ⟨Pson.wellFormedNode_object.2 ⟨hlength, horder⟩,
        fun m hm => (h m hm).2.sendable.wellFormed⟩,
      (every_object _ _).2 ⟨?_, fun m hm => (h m hm).2.sendable.portable⟩,
      Pson.nulFree_object.2 fun m hm => ⟨(h m hm).1.nulFree, (h m hm).2.sendable.nulFree⟩⟩
    simpa [portableNode] using fun a b hm => (h (a, b) hm).1.size
  fits := by
    intro n hn
    exact absurd hn (by simp [intValue])
  printable := printable_object.2 fun m hm => ⟨(h m hm).1.utf8, (h m hm).2.printable⟩

/-! ## What a call sends -/

namespace ServerCall

/-- arguments that the codec keeps and the logger prints -/
def Plain : ServerCall → Prop
  | getProperty propertyId => PlainText propertyId
  | setProperty propertyId data _ => PlainText propertyId ∧ PlainData data
  | writeBucket bucketId data _ => PlainText bucketId ∧ PlainData data
  | callEndpoint endpointName data _ => PlainText endpointName ∧ ∀ v ∈ data, PlainData v
  | callDevice device resource data _ => PlainText device ∧ PlainText resource ∧ ∀ v ∈ data, PlainData v
  | lockSync syncId lockId _ _ => PlainText syncId ∧ PlainText lockId
  | unlockSync syncId lockId => PlainText syncId ∧ PlainText lockId

variable {call : ServerCall}

theorem Plain.parameters (h : call.Plain) : PlainData call.parameters ∧ call.parameters.Printable := by
  have htext : ∀ {s : Bytes}, PlainText s → PlainData (.string s) ∧ (Json.string s).Printable :=
    fun hs => ⟨hs.data, hs.value.printable⟩
  cases call with
  | getProperty propertyId => exact htext h
  | setProperty propertyId data confirm => exact htext h.1
  | writeBucket bucketId data confirm => exact htext h.1
  | callEndpoint endpointName data confirm => exact htext h.1
  | callDevice device resource data confirm =>
    have harray : PlainData (.array [.string device, .string resource]) := by
      refine plainData_array (by simp) ?_
      intro e he
      rcases List.mem_pair.1 he with rfl | rfl
      · exact h.1.value
      · exact h.2.1.value
    exact ⟨harray, harray.printable⟩
  | lockSync syncId lockId slots timeoutSeconds => exact htext h.1
  | unlockSync syncId lockId => exact htext h.1

/-- the keys of the members that the locks assign, in order -/
def lockKeys : List String := ["lock", "slots", "timeout"]

theorem plain_lockKeys : ∀ key ∈ lockKeys, PlainText (text key) := by
  intro key hkey
  fin_cases hkey
  · exact ⟨by decide, by decide, by decide⟩
  · exact ⟨by decide, by decide, by decide⟩
  · exact ⟨by decide, by decide, by decide⟩

theorem plain_members {members : List (String × Json)} (hkeys : (members.map Prod.fst).Sublist lockKeys)
    (h : ∀ m ∈ members, PlainValue m.2) : PlainData (.object (members.map fun m => (text m.1, m.2))) := by
  have hlength : members.length ≤ 3 := by simpa [lockKeys] using hkeys.length_le
  refine plainData_object (by rw [List.length_map]; omega) ?_ ?_
  · have hsorted : (members.map fun m => text m.1).Pairwise (· < ·) := by
      have hall : (lockKeys.map text).Pairwise (· < ·) := by decide
      have hsub := hall.sublist (hkeys.map text)
      rwa [List.map_map] at hsub
    rw [List.pairwise_map] at hsorted
    exact List.pairwise_map.2 hsorted
  · intro m hm
    obtain ⟨member, hmember, rfl⟩ := List.mem_map.1 hm
    have hkey : member.1 ∈ lockKeys := hkeys.subset (List.mem_map_of_mem hmember)
    exact ⟨plain_lockKeys _ hkey, h member hmember⟩

/-- the members are assigned in the order of their keys -/
theorem assignMembers_lock (lockId : Bytes) (slots timeoutSeconds : UInt16) :
    assignMembers (lockMembers lockId slots timeoutSeconds) =
      .object ((lockMembers lockId slots timeoutSeconds).map fun m => (text m.1, m.2)) := by
  unfold lockMembers
  split_ifs <;> rfl

theorem plain_lockMembers {lockId : Bytes} (h : PlainText lockId) (slots timeoutSeconds : UInt16) :
    PlainData (assignMembers (lockMembers lockId slots timeoutSeconds)) := by
  rw [assignMembers_lock]
  refine plain_members ?_ ?_
  · unfold lockMembers
    split_ifs <;> simp [lockKeys]
  · intro m hm
    simp only [lockMembers, List.mem_append, List.mem_ite_nil_right, List.mem_singleton] at hm
    rcases hm with (⟨-, rfl⟩ | ⟨-, rfl⟩) | ⟨-, rfl⟩
    · exact h.value
    · exact plainValue_unsigned _
    · exact plainValue_unsigned _

theorem Plain.payload (h : call.Plain) : ∀ v ∈ call.payload, PlainData v := by
  intro v hv
  cases call with
  | getProperty propertyId => exact absurd hv (by simp [ServerCall.payload])
  | setProperty propertyId data confirm =>
    obtain rfl : data = v := by simpa [ServerCall.payload] using hv
    exact h.2
  | writeBucket bucketId data confirm =>
    obtain rfl : data = v := by simpa [ServerCall.payload] using hv
    exact h.2
  | callEndpoint endpointName data confirm => exact h.2 v hv
  | callDevice device resource data confirm => exact h.2.2 v hv
  | lockSync syncId lockId slots timeoutSeconds =>
    simp only [ServerCall.payload] at hv
    split_ifs at hv
    · exact absurd hv (by simp)
    · obtain rfl : assignMembers (lockMembers lockId slots timeoutSeconds) = v := by simpa using hv
      exact plain_lockMembers h.2 slots timeoutSeconds
  | unlockSync syncId lockId =>
    obtain rfl : assignMembers [("lock", .string lockId)] = v := by simpa [ServerCall.payload] using hv
    have hmembers : ∀ m ∈ [("lock", Json.string lockId)], PlainValue m.2 := List.forall_mem_singleton.2 h.2.value
    exact plain_members (by simp [lockKeys]) hmembers

/-- the fields of the message, one after the other -/
theorem message_induct {p : IotmpMessage → Prop} (call : ServerCall) (hstart : p { messageType := .run })
    (hresource : ∀ m, p m → p (m.setField Field.RESOURCE (.numberUnsigned call.run.code.toUInt64)))
    (hparameters : ∀ m, p m → p (m.setField Field.PARAMETERS call.parameters))
    (hpayload : ∀ m, ∀ v ∈ call.payload, p m → p (m.setField Field.PAYLOAD v)) : p call.message := by
  unfold message
  rcases hp : call.payload with _ | v
  · exact hparameters _ (hresource _ hstart)
  · exact hpayload _ v hp (hparameters _ (hresource _ hstart))

@[simp] theorem getStreamId_message (call : ServerCall) : call.message.getStreamId = 0 := by
  refine message_induct (p := fun m => m.getStreamId = 0) call rfl ?_ ?_ ?_
  · intro m hm
    rw [IotmpMessage.getStreamId_setField_ne _ _ (by decide), hm]
  · intro m hm
    rw [IotmpMessage.getStreamId_setField_ne _ _ (by decide), hm]
  · intro m v _ hm
    rw [IotmpMessage.getStreamId_setField_ne _ _ (by decide), hm]

@[simp] theorem messageType_message (call : ServerCall) : call.message.messageType = .run := by
  refine message_induct (p := fun m => m.messageType = .run) call rfl ?_ ?_ ?_
  · exact fun m hm => hm
  · exact fun m hm => hm
  · exact fun m v _ hm => hm

theorem request_of_waits (h : call.waits = true) (streamId : UInt16) :
    call.request streamId = call.message.setStreamId streamId :=
  if_pos ⟨h, call.getStreamId_message⟩

theorem getStreamId_request (h : call.waits = true) (streamId : UInt16) :
    (call.request streamId).getStreamId = streamId := by
  rw [request_of_waits h, IotmpMessage.getStreamId_setStreamId]

/-- a property of messages that the stream id does not touch -/
theorem request_of_message {p : IotmpMessage → Prop} (h : p call.message)
    (hid : ∀ m streamId, p m → p (m.setStreamId streamId)) (streamId : UInt16) : p (call.request streamId) := by
  rw [request]
  split_ifs
  · exact hid _ _ h
  · exact h

/-- the codec keeps every field -/
def Kept (m : IotmpMessage) : Prop :=
  ∀ e ∈ m.fields.entries, e.1 ∈ Field.protocol ∧ Codec.Sendable e.2 ∧ Codec.FitsVarint e.2

theorem Kept.setField {m : IotmpMessage} (h : Kept m) {field : UInt8} (hfield : field ∈ Field.protocol) {v : Json}
    (hs : Codec.Sendable v) (hf : Codec.FitsVarint v) : Kept (m.setField field v) := by
  intro e he
  rcases SortedMap.mem_insert he with rfl | he
  · exact ⟨hfield, hs, hf⟩
  · exact h e he

theorem Plain.kept (h : call.Plain) (streamId : UInt16) : Kept (call.request streamId) := by
  refine request_of_message (message_induct call ?_ ?_ ?_ ?_) ?_ streamId
  · intro e he
    exact absurd he List.not_mem_nil
  · intro m hm
    have hcode : call.run.code.toUInt64.toNat < 2 ^ 32 := by
      rw [UInt32.toNat_toUInt64]
      exact call.run.code.toNat_lt
    exact hm.setField (by decide) (plainValue_unsigned _).sendable (fitsVarint_unsigned hcode)
  · intro m hm
    exact hm.setField (by decide) h.parameters.1.sendable h.parameters.1.fits
  · intro m v hv hm
    exact hm.setField (by decide) (h.payload v hv).sendable (h.payload v hv).fits
  · intro m id hm
    have hid : id.toUInt64.toNat < 2 ^ 32 := by
      have hlt := id.toNat_lt
      rw [UInt16.toNat_toUInt64]
      omega
    exact hm.setField (by decide) (plainValue_unsigned _).sendable (fitsVarint_unsigned hid)

theorem Plain.dumpable (h : call.Plain) (streamId : UInt16) : (call.request streamId).Dumpable := by
  refine request_of_message (message_induct call ?_ ?_ ?_ ?_) ?_ streamId
  · exact ⟨rfl, rfl, rfl⟩
  · rintro m ⟨-, hparameters, hpayload⟩
    refine ⟨?_, ?_, ?_⟩
    · rw [IotmpMessage.get_setField, if_pos rfl]
      rfl
    · rw [IotmpMessage.get_setField, if_neg (by decide)]
      exact hparameters
    · rw [IotmpMessage.get_setField, if_neg (by decide)]
      exact hpayload
  · rintro m ⟨hresource, -, hpayload⟩
    refine ⟨?_, ?_, ?_⟩
    · rw [IotmpMessage.get_setField, if_neg (by decide)]
      exact hresource
    · rw [IotmpMessage.get_setField, if_pos rfl]
      exact h.parameters.2
    · rw [IotmpMessage.get_setField, if_neg (by decide)]
      exact hpayload
  · rintro m v hv ⟨hresource, hparameters, -⟩
    refine ⟨?_, ?_, ?_⟩
    · rw [IotmpMessage.get_setField, if_neg (by decide)]
      exact hresource
    · rw [IotmpMessage.get_setField, if_neg (by decide)]
      exact hparameters
    · rw [IotmpMessage.get_setField, if_pos rfl]
      exact (h.payload v hv).printable
  · exact fun m id hm => (IotmpMessage.dumpable_setStreamId m id).2 hm

/-- **What a call sends arrives.** -/
theorem Plain.carried (h : call.Plain) {streamId : UInt16} {m : Outgoing} (hm : m.message = call.request streamId)
    (hsize : (Codec.body m.fields).length ≤ MAX_MESSAGE_SIZE) : m.Carried := by
  have hkept := h.kept streamId
  have htype : (call.request streamId).messageType = .run :=
    request_of_message (p := fun m => m.messageType = .run) call.messageType_message (fun _ _ hm => hm) streamId
  refine ⟨⟨0x06, by decide, ?_⟩, ?_, ?_, ?_, hsize⟩
  · rw [hm, htype]
    rfl
  · rw [hm]
    exact fun e he => (hkept e he).1
  · rw [hm]
    exact fun e he => (hkept e he).2.1
  · rw [hm]
    exact fun e he => (hkept e he).2.2

end ServerCall

/-! ## What a call returns -/

/-- a response to the request, or what `wait_response` takes for one -/
def AnswersTo (request m : IotmpMessage) : Prop :=
  request.getStreamId = m.getStreamId ∧ m.messageType.code ≤ MessageType.error.code

/-- a message that the client can read and that is no answer -/
structure Beside (logging : Bool) (request : IotmpMessage) (m : Outgoing) : Prop where
  carried : m.Carried
  logs : m.message.Logs logging
  other : ¬ AnswersTo request m.message

theorem answersTo_arrived {m : Outgoing} (h : m.Carried) (request : IotmpMessage) :
    AnswersTo request m.arrived ↔ AnswersTo request m.message := by
  rw [AnswersTo, AnswersTo, h.arrived.1, h.arrived.2.getStreamId]

/-- what `handle_message` gets of them -/
def handed (ms : List (Outgoing × SessionCode)) : List (IotmpMessage × SessionCode) :=
  ms.map fun m => (m.1.arrived, m.2)

namespace Client

variable {logging : Bool} {request : IotmpMessage} {wantsPayload : Bool}

/-- it is `Client.waitResponse` on the messages that the socket delivers -/
theorem waitResponse_of_awaitResponse (codes : List SessionCode) (c : Client) (input : Bytes) :
    match awaitResponse logging request true codes c input with
    | ⟨_, _, .waiting⟩ => True
    | ⟨c', _, .returned success payload⟩ =>
      c.waitResponse request ((readMessages logging codes.length input).1.zip codes) =
        (c', .returns (success, payload.getD .null))
    | ⟨c', _, .thrown⟩ =>
      c.waitResponse request ((readMessages logging codes.length input).1.zip codes) = (c', .throws) := by
  induction codes generalizing c input with
  | nil => trivial
  | cons code codes ih =>
    rw [List.length_cons, readMessages, awaitResponse]
    rcases hread : readMessage logging input with ⟨outcome, input'⟩
    simp only [List.zip_cons_cons, waitResponse]
    rcases consume (.waitResponse request true) outcome with m | ⟨success, payload⟩ | _ | _
    · simp only
      rcases hm : c.handleMessage m code with ⟨c', _ | _⟩
      · rfl
      · exact ih c' input'
    · rfl
    · rfl
    · rfl

/-- **Other messages are handled in the order in which they come.** -/
theorem awaitResponse_beside (ms : List (Outgoing × SessionCode)) (codes : List SessionCode) (c : Client) (input : Bytes)
    (h : ∀ m ∈ ms, Beside logging request m.1) (hreturns : (c.handleMessages (handed ms)).2 = true) :
    awaitResponse logging request wantsPayload (ms.map Prod.snd ++ codes) c
        ((ms.flatMap fun m => m.1.encoded) ++ input) =
      awaitResponse logging request wantsPayload codes (c.handleMessages (handed ms)).1 input := by
  induction ms generalizing c with
  | nil => rfl
  | cons m ms ih =>
    obtain ⟨m, code⟩ := m
    obtain ⟨hm, hms⟩ := List.forall_mem_cons.1 h
    have hother : ¬ (request.getStreamId = m.arrived.getStreamId ∧
        m.arrived.messageType.code ≤ MessageType.error.code) :=
      fun hanswers => hm.other ((answersTo_arrived hm.carried request).1 hanswers)
    rcases hhandle : c.handleMessage m.arrived code with ⟨c', _ | _⟩
    · simp [handed, handleMessages, hhandle] at hreturns
    · have hrest : (c'.handleMessages (handed ms)).2 = true := by
        simpa [handed, handleMessages, hhandle] using hreturns
      have hall : c.handleMessages (handed ((m, code) :: ms)) = c'.handleMessages (handed ms) := by
        simp [handed, handleMessages, hhandle]
      rw [hall, ← ih c' hms hrest, List.map_cons, List.cons_append, List.flatMap_cons, List.append_assoc, awaitResponse,
        hm.carried.read hm.logs]
      simp only [consume, if_neg hother, hhandle]

/-- the answer -/
theorem awaitResponse_answer {m : Outgoing} (hm : m.Carried) (hlogs : m.message.Logs logging)
    (hanswers : AnswersTo request m.message) (code : SessionCode) (codes : List SessionCode) (c : Client)
    (rest : Bytes) :
    ∃ payload, awaitResponse logging request wantsPayload (code :: codes) c (m.encoded ++ rest) =
        ⟨c, rest, .returned (m.message.messageType = .ok) payload⟩ ∧
      Option.Rel Same payload (if wantsPayload then m.message.fields.get Field.PAYLOAD else none) := by
  have hmine : request.getStreamId = m.arrived.getStreamId ∧ m.arrived.messageType.code ≤ MessageType.error.code :=
    (answersTo_arrived hm request).2 hanswers
  refine ⟨if wantsPayload && m.arrived.hasField Field.PAYLOAD then some (m.arrived.get Field.PAYLOAD) else none, ?_, ?_⟩
  · have hconsume : consume (.waitResponse request wantsPayload) (.message m.arrived) =
        .answer (m.message.messageType = .ok)
          (if wantsPayload && m.arrived.hasField Field.PAYLOAD then some (m.arrived.get Field.PAYLOAD) else none) := by
      rw [consume, if_pos hmine, hm.arrived.1]
    rw [awaitResponse, hm.read hlogs]
    simp only [hconsume]
  · have hfield := hm.arrived.2 Field.PAYLOAD
    cases wantsPayload with
    | false => exact Option.Rel.none
    | true =>
      rw [IotmpMessage.hasField, IotmpMessage.get]
      rcases hpayload : m.arrived.fields.get Field.PAYLOAD with _ | v
      · rw [hpayload] at hfield
        simpa using hfield
      · rw [hpayload] at hfield
        simpa using hfield

/-- the connection ends before the next message is complete -/
theorem awaitResponse_cut {m : Outgoing} (hm : m.Carried) {cut more : Bytes} (hcut : cut ++ more = m.encoded)
    (hmore : more ≠ []) (code : SessionCode) (codes : List SessionCode) (c : Client) :
    awaitResponse logging request wantsPayload (code :: codes) c cut = ⟨c, [], .returned false none⟩ := by
  rw [awaitResponse, hm.read_cut hcut hmore]
  rfl

theorem callServer_waits (c : Client) {call : ServerCall} (hwaits : call.waits = true) {streamId : UInt16}
    (hlogs : (call.request streamId).Logs c.logging) (codes : List SessionCode) (input : Bytes) :
    c.callServer call streamId true codes input =
      awaitResponse c.logging (call.request streamId) call.wantsPayload codes c input := by
  rw [callServer]
  simp only [if_pos hlogs, if_pos hwaits, if_true]

/-- **A call and its answer.** A call that waits, with arguments that the codec keeps. The server reads the call, with
equal fields and under the stream id that was drawn. Whatever messages the server sends before its answer are handled, in
order; then the call returns the answer, its payload if the call wants one, and what follows the answer is left to be
read. If the connection ends within the answer or another message, the call returns false and no payload. -/
theorem call_answered (c : Client) (call : ServerCall) (hplain : call.Plain) (hwaits : call.waits = true)
    (streamId : UInt16) (sent answer : Outgoing) (before : List (Outgoing × SessionCode)) (code : SessionCode)
    (codes : List SessionCode) (rest : Bytes) (hsent : sent.message = call.request streamId)
    (hsize : (Codec.body sent.fields).length ≤ MAX_MESSAGE_SIZE)
    (hbefore : ∀ m ∈ before, Beside c.logging (call.request streamId) m.1)
    (hreturns : (c.handleMessages (handed before)).2 = true) (hcarried : answer.Carried)
    (hlogs : answer.message.Logs c.logging) (hid : answer.message.getStreamId = streamId)
    (htype : answer.message.messageType = .ok ∨ answer.message.messageType = .error) :
    (∃ request, readMessage false (sent.encoded ++ rest) = (.message request, rest) ∧ request.messageType = .run ∧
        request.getStreamId = streamId ∧ Codec.SameFields request (call.request streamId)) ∧
      (∃ payload, c.callServer call streamId true (before.map Prod.snd ++ code :: codes)
            ((before.flatMap fun m => m.1.encoded) ++ (answer.encoded ++ rest)) =
          ⟨(c.handleMessages (handed before)).1, rest, .returned (answer.message.messageType = .ok) payload⟩ ∧
        Option.Rel Same payload (if call.wantsPayload then answer.message.fields.get Field.PAYLOAD else none)) ∧
      ∀ m : Outgoing, m.Carried → ∀ cut more, cut ++ more = m.encoded → more ≠ [] →
        c.callServer call streamId true (before.map Prod.snd ++ code :: codes)
            ((before.flatMap fun m => m.1.encoded) ++ cut) =
          ⟨(c.handleMessages (handed before)).1, [], .returned false none⟩ := by
  have hdump : (call.request streamId).Logs c.logging := fun _ _ => hplain.dumpable streamId
  have hown := ServerCall.getStreamId_request hwaits streamId
  refine ⟨?_, ?_, ?_⟩
  · have harrives := hplain.carried hsent hsize
    have hquiet : sent.message.Logs false := fun hon => absurd hon Bool.false_ne_true
    obtain ⟨hrun, hsame⟩ := harrives.arrived
    rw [hsent] at hrun hsame
    refine ⟨sent.arrived, harrives.read hquiet rest, hrun.trans ?_, hsame.getStreamId.trans hown, hsame⟩
    exact ServerCall.request_of_message (p := fun m => m.messageType = .run) call.messageType_message
      (fun _ _ hm => hm) streamId
  · have hanswers : AnswersTo (call.request streamId) answer.message := by
      refine ⟨hown.trans hid.symm, ?_⟩
      rcases htype with htype | htype
      · rw [htype]
        decide
      · rw [htype]
    rw [callServer_waits c hwaits hdump, awaitResponse_beside before _ c _ hbefore hreturns]
    exact awaitResponse_answer hcarried hlogs hanswers code codes _ rest
  · intro m hm cut more hcut hmore
    rw [callServer_waits c hwaits hdump, awaitResponse_beside before _ c _ hbefore hreturns]
    exact awaitResponse_cut hm hcut hmore code codes _

/-- the property `rate`, of which the server says 5 after a keep-alive -/
theorem call_answered_property :
    let call := ServerCall.getProperty (text "rate")
    let answer := Outgoing.ofMessage ((IotmpMessage.withStreamId 7 .ok).setField Field.PAYLOAD (.numberUnsigned 5))
    let keepAlive := Outgoing.ofMessage { messageType := .keepAlive }
    ∃ payload, Client.callServer {} call 7 true [{}, {}] (keepAlive.encoded ++ (answer.encoded ++ [])) =
      ⟨{}, [], .returned true (some payload)⟩ ∧ Same payload (.numberUnsigned 5) := by
  intro call answer keepAlive
  have hkeepAlive : Beside true (call.request 7) keepAlive := by
    refine ⟨⟨⟨0x05, by decide, rfl⟩, List.forall_mem_nil _, List.forall_mem_nil _, List.forall_mem_nil _, by decide⟩,
      by decide, ?_⟩
    rintro ⟨-, hcode⟩
    exact absurd hcode (by decide)
  have hanswer : answer.Carried := by
    refine ⟨⟨0x01, by decide, rfl⟩, by decide, ?_, ?_, by decide⟩
    · exact List.forall_mem_cons.2 ⟨⟨rfl, rfl, rfl⟩, List.forall_mem_singleton.2 ⟨rfl, rfl, rfl⟩⟩
    · exact List.forall_mem_cons.2
        ⟨fitsVarint_unsigned (by decide), List.forall_mem_singleton.2 (fitsVarint_unsigned (by decide))⟩
  obtain ⟨-, ⟨payload, hreturned, hsame⟩, -⟩ := call_answered {} call ⟨by decide, by decide, by decide⟩ rfl 7
    (.ofMessage (call.request 7)) answer [(keepAlive, {})] {} [] [] rfl (by decide)
    (List.forall_mem_singleton.2 hkeepAlive) rfl hanswer (by decide) (by decide) (.inl rfl)
  rw [List.flatMap_singleton] at hreturned
  rcases payload with _ | payload
  · cases hsame
  · refine ⟨payload, hreturned, ?_⟩
    cases hsame with
    | some h => exact h

end Client

end Iotmp
