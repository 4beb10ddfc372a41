/-
Stream data on the wire (`client.hpp`: `stream_resource`, with which sessions send).

- `dataMessage`: the message, a STREAM_DATA with the payload of the session and the stream id.
- `data_arrives`: any stream data, of any streams and with anything behind it, is read back one by one, each under its
  own stream id and with its payload as PSON hands it on.
- `SessionData`: what the sessions of the extensions send. `session_data_arrives`: all of it fits into a message and
  arrives unchanged.
-/
import Mathlib.Tactic
import Iotmp.Client.Connections
import Iotmp.Client.FrameStream
import Iotmp.Cmd.StreamSession
import Iotmp.Fs.Upload
import Iotmp.Relay.RelaySession

namespace Iotmp

open Json

def dataMessage (streamId : UInt16) (data : Json) : IotmpMessage :=
  (IotmpMessage.setField { messageType := .streamData } Field.PAYLOAD data).setStreamId streamId

def dataFrame (streamId : UInt16) (data : Json) : Outgoing := .ofMessage (dataMessage streamId data)

theorem Client.streamData_eq (c : Client) (hc : c.connected = true) (streamId : UInt16) (data : Json) :
    c.streamData streamId data = c.sendMessage (dataMessage streamId data) := by
  rw [streamData, if_pos hc]
  rfl

/-! ## Any stream data -/

theorem dataFrame_fields (streamId : UInt16) (data : Json) :
    (dataFrame streamId data).fields = [(Field.STREAM_ID, .numberUnsigned streamId.toUInt64), (Field.PAYLOAD, data)] := by
  rfl

/-- data that a frame can carry: no integer at the top, nothing that PSON loses, and not too long -/
structure Deliverable (streamId : UInt16) (data : Json) : Prop where
  sendable : Codec.Sendable data
  pson : Codec.fieldVarint data = none
  size : (Codec.body (dataFrame streamId data).fields).length ≤ MAX_MESSAGE_SIZE

/-- what the decoder makes of it -/
def arrivedData (streamId : UInt16) (data : Json) : IotmpMessage :=
  ({ messageType := .streamData } : IotmpMessage).setStreamId streamId |>.setField Field.PAYLOAD (Pson.arrive data)

@[simp] theorem getStreamId_arrivedData (streamId : UInt16) (data : Json) :
    (arrivedData streamId data).getStreamId = streamId := by
  rw [arrivedData, IotmpMessage.getStreamId_setField_ne _ _ (by decide), IotmpMessage.getStreamId_setStreamId]

@[simp] theorem get_arrivedData (streamId : UInt16) (data : Json) :
    (arrivedData streamId data).get Field.PAYLOAD = Pson.arrive data := by
  rw [arrivedData, IotmpMessage.get_setField, if_pos rfl]

theorem sendable_streamId (streamId : UInt16) : Codec.Sendable (.numberUnsigned streamId.toUInt64) := ⟨rfl, rfl, rfl⟩

theorem arriveField_streamId (streamId : UInt16) :
    Codec.arriveField (.numberUnsigned streamId.toUInt64) = some (.numberUnsigned streamId.toUInt64) := by
  have hlt : streamId.toUInt64.toNat < 2 ^ 16 := by
    rw [UInt16.toNat_toUInt64]
    exact streamId.toNat_lt
  have hmod : streamId.toUInt64.toNat % 2 ^ 32 = streamId.toUInt64.toNat := Nat.mod_eq_of_lt (by omega)
  simp only [Codec.arriveField, Codec.fieldVarint, hmod, UInt64.ofNat_toNat]
  exact if_pos (by omega)

theorem Deliverable.message {streamId : UInt16} {data : Json} (h : Deliverable streamId data) :
    (dataFrame streamId data).frame.message = arrivedData streamId data := by
  have hfields := dataFrame_fields streamId data
  have hsend : ∀ e ∈ (dataFrame streamId data).fields, Codec.Sendable e.2 := by
    rw [hfields]
    exact List.forall_mem_cons.2 ⟨sendable_streamId streamId, List.forall_mem_singleton.2 h.sendable⟩
  have harrive : Codec.arriveField data = some (Pson.arrive data) := by rw [Codec.arriveField, h.pson]
  have hprotocol : ∀ e ∈ (dataFrame streamId data).fields, e.1 ∈ Field.protocol := by
    rw [hfields]
    simp [Field.protocol]
  have hdecode := (Codec.decodeBody_body .streamData (dataFrame streamId data).fields hprotocol hsend).1
    (by
      rw [hfields]
      refine List.forall_mem_cons.2 ⟨?_, List.forall_mem_singleton.2 ?_⟩
      · rw [arriveField_streamId]
        rfl
      · rw [harrive]
        rfl)
  have hpos : 0 < (Codec.body (dataFrame streamId data).fields).length := by
    rw [Codec.body_eq _ hsend]
    exact lt_of_lt_of_le (by rw [hfields]; exact Nat.two_pos) (Codec.length_le_entries _)
  have hframe : (dataFrame streamId data).frame =
      ⟨MessageType.streamData.code, Codec.body (dataFrame streamId data).fields⟩ := rfl
  rw [hframe, Frame.message, if_pos hpos]
  change (Codec.decodeBody .streamData _).2.1 = _
  rw [hdecode, hfields]
  simp only [Codec.arriveFields, List.foldl_cons, List.foldl_nil, arriveField_streamId, harrive, Option.getD_some]
  rfl

/-- **Stream data arrives**, in order, whatever streams it belongs to and whatever follows it. No logger looks at it. -/
theorem data_arrives (logging : Bool) (ds : List (UInt16 × Json)) (rest : Bytes) (h : ∀ d ∈ ds, Deliverable d.1 d.2) :
    readMessages logging ds.length ((ds.flatMap fun d => (dataFrame d.1 d.2).encoded) ++ rest) =
      (ds.map fun d => .message (arrivedData d.1 d.2), rest) := by
  have htype : ∀ m ∈ ds.map fun d => dataFrame d.1 d.2, m.message.messageType.OneByte := by
    intro m hm
    obtain ⟨d, -, rfl⟩ := List.mem_map.1 hm
    exact ⟨0x0a, by decide, rfl⟩
  have hsize : ∀ m ∈ ds.map fun d => dataFrame d.1 d.2, (Codec.body m.fields).length ≤ MAX_MESSAGE_SIZE := by
    intro m hm
    obtain ⟨d, hd, rfl⟩ := List.mem_map.1 hm
    exact (h d hd).size
  have hlogs : ∀ m ∈ ds.map fun d => dataFrame d.1 d.2, m.frame.message.Logs logging := by
    intro m hm
    obtain ⟨d, hd, rfl⟩ := List.mem_map.1 hm
    rw [(h d hd).message]
    exact fun _ hne => absurd rfl hne
  have hread := readMessages_encoded htype hsize hlogs rest
  rw [List.length_map, List.flatMap_map, List.map_map] at hread
  rw [hread, Prod.mk.injEq]
  refine ⟨List.map_congr_left fun d hd => ?_, rfl⟩
  rw [Function.comp_apply, (h d hd).message]

/-! ## What the sessions send -/

/-- the JSON of an ACK -/
def UploadAck.payload (a : UploadAck) : Json :=
  .object [(text "ack", .numberUnsigned a.ack.toUInt64), (text "bytes", .numberUnsigned (UInt64.ofNat a.bytes))]

inductive SessionData where
  /-- a chunk of a download, or what a relay session has read -/
  | bytes (data : Bytes)
  | ack (ack : UploadAck)
  | command (frame : CmdFrame)

namespace SessionData

def payload : SessionData → Json
  | .bytes data => .binary data none
  | .ack a => a.payload
  | .command frame => frame.payload

/-- the buffers the data comes from -/
def Buffered : SessionData → Prop
  | .bytes data => data.length ≤ max DEFAULT_CHUNK_SIZE (max PROXY_BUFFER_SIZE TERMINAL_BUFFER_SIZE)
  | .command (.data _ data) => data.length ≤ CmdStream.CMD_STREAM_BUFFER_SIZE
  | _ => True

end SessionData

theorem length_encode_le_ten {n : ℕ} (hn : n < 2 ^ 64) : (Leb128.encode n).length ≤ 10 :=
  Leb128.length_encode_le (by norm_num) (lt_trans hn (by norm_num))

theorem length_tagBytes (wireType : PsonWireType) (v : UInt64) : (Pson.tagBytes wireType v).length ≤ 11 := by
  have h := length_encode_le_ten v.toNat_lt
  rw [Pson.tagBytes]
  split_ifs
  · exact (by decide : 1 ≤ 11)
  · rw [List.length_cons]
    omega

theorem length_integerBytes (v : Int64) : (Pson.integerBytes v).length ≤ 11 := by
  rw [Pson.integerBytes]
  split_ifs <;> exact length_tagBytes _ _

theorem entryBytes_pson {data : Json} (hp : Codec.fieldVarint data = none) (field : UInt8) :
    Codec.entryBytes (field, data) = Codec.fieldTag .psonV2 field :: Pson.bytes data := by
  simp only [Codec.entryBytes, hp]

/-- a body is the data and little more -/
theorem length_body (streamId : UInt16) {data : Json} (hs : Codec.Sendable data) (hp : Codec.fieldVarint data = none) :
    (Codec.body (dataFrame streamId data).fields).length ≤ (Pson.bytes data).length + 12 := by
  have hsend : ∀ e ∈ (dataFrame streamId data).fields, Codec.Sendable e.2 := by
    rw [dataFrame_fields]
    exact List.forall_mem_cons.2 ⟨sendable_streamId streamId, List.forall_mem_singleton.2 hs⟩
  have hid := length_encode_le_ten streamId.toUInt64.toNat_lt
  have hvarint : Codec.entryBytes (Field.STREAM_ID, .numberUnsigned streamId.toUInt64) =
      Codec.fieldTag .varint Field.STREAM_ID :: Leb128.encode streamId.toUInt64.toNat := rfl
  rw [Codec.body_eq _ hsend, dataFrame_fields, List.flatMap_cons, List.flatMap_singleton, entryBytes_pson hp, hvarint]
  simp only [List.length_append, List.length_cons]
  omega

theorem length_stringBytes (s : Bytes) : (Pson.stringBytes s).length ≤ s.length + 11 := by
  have htag := length_tagBytes .stringT (UInt64.ofNat (Pson.cStr s).length)
  have hcut : (Pson.cStr s).length ≤ s.length := (List.takeWhile_sublist _).length_le
  rw [Pson.stringBytes, List.length_append]
  omega

theorem sendable_bytes {data : Bytes} (h : data.length ≤ UINT32_MAX) : Codec.Sendable (.binary data none) :=
  ⟨rfl, by simpa [Portable, every, portableNode] using h, rfl⟩

theorem UploadAck.sendable (a : UploadAck) : Codec.Sendable a.payload := ⟨rfl, rfl, rfl⟩

theorem UploadAck.length_bytes (a : UploadAck) : (Pson.bytes a.payload).length ≤ 64 := by
  have hmap := length_tagBytes .mapT 2
  have hack := length_tagBytes .unsignedT a.ack.toUInt64
  have hbytes := length_tagBytes .unsignedT (UInt64.ofNat a.bytes)
  have hkeys := length_stringBytes (text "ack")
  have hkeys' := length_stringBytes (text "bytes")
  have heq : Pson.bytes a.payload = Pson.tagBytes .mapT 2 ++ (Pson.stringBytes (text "ack") ++
      (Pson.tagBytes .unsignedT a.ack.toUInt64 ++ (Pson.stringBytes (text "bytes") ++
        (Pson.tagBytes .unsignedT (UInt64.ofNat a.bytes) ++ [])))) := rfl
  have hlengths : (text "ack").length = 3 ∧ (text "bytes").length = 5 := by decide
  rw [heq]
  simp only [List.length_append, List.length_nil]
  omega

section

variable {frame : CmdFrame} (h : ∀ channel bytes, frame = .data channel bytes → bytes.length ≤ 4096)
include h

theorem CmdFrame.sendable : Codec.Sendable frame.payload := by
  cases frame with
  | data channel bytes =>
    have hmax : bytes.length ≤ UINT32_MAX := (h channel bytes rfl).trans (by decide)
    cases channel <;> refine ⟨rfl, ?_, rfl⟩ <;>
      simpa [CmdFrame.payload, Portable, every, everyMember, portableNode] using ⟨by decide, hmax⟩
  | exit code timeout => cases timeout <;> exact ⟨rfl, rfl, rfl⟩

theorem CmdFrame.length_bytes : (Pson.bytes frame.payload).length ≤ 4096 + 64 := by
  have hmap (n : UInt64) := length_tagBytes .mapT n
  have hout := length_stringBytes (text "out")
  have herr := length_stringBytes (text "err")
  have hexit := length_stringBytes (text "exit")
  have htimeout := length_stringBytes (text "timeout")
  have hlengths : (text "out").length = 3 ∧ (text "err").length = 3 ∧ (text "exit").length = 4 ∧
      (text "timeout").length = 7 := by decide
  rcases frame with ⟨channel, bytes⟩ | ⟨code, _ | _⟩
  · have hdata := h channel bytes rfl
    have htag := length_tagBytes .bytesT (UInt64.ofNat bytes.length)
    have hone := hmap 1
    cases channel with
    | out =>
      change (Pson.tagBytes .mapT 1 ++ (Pson.stringBytes (text "out") ++
        (Pson.tagBytes .bytesT (UInt64.ofNat bytes.length) ++ bytes ++ []))).length ≤ _
      simp only [List.length_append, List.length_nil]
      omega
    | err =>
      change (Pson.tagBytes .mapT 1 ++ (Pson.stringBytes (text "err") ++
        (Pson.tagBytes .bytesT (UInt64.ofNat bytes.length) ++ bytes ++ []))).length ≤ _
      simp only [List.length_append, List.length_nil]
      omega
  · have hcode := length_integerBytes code.toInt64
    have hone := hmap 1
    change (Pson.tagBytes .mapT 1 ++ (Pson.stringBytes (text "exit") ++
      (Pson.integerBytes code.toInt64 ++ []))).length ≤ _
    simp only [List.length_append, List.length_nil]
    omega
  · have hcode := length_integerBytes code.toInt64
    have htwo := hmap 2
    change (Pson.tagBytes .mapT 2 ++ (Pson.stringBytes (text "exit") ++ (Pson.integerBytes code.toInt64 ++
      (Pson.stringBytes (text "timeout") ++ ([_] ++ []))))).length ≤ _
    simp only [List.length_append, List.length_nil, List.length_singleton]
    omega

end

namespace SessionData

theorem Buffered.deliverable {d : SessionData} (h : d.Buffered) (streamId : UInt16) : Deliverable streamId d.payload := by
  cases d with
  | bytes data =>
    have hlength : data.length ≤ 64 * 1024 := h
    have hs : Codec.Sendable (.binary data none) := sendable_bytes (le_trans hlength (by decide))
    refine ⟨hs, rfl, (length_body streamId hs rfl).trans ?_⟩
    have htag := length_tagBytes .bytesT (UInt64.ofNat data.length)
    change (Pson.tagBytes .bytesT (UInt64.ofNat data.length) ++ data).length + 12 ≤ 256 * 1024
    rw [List.length_append]
    omega
  | ack a =>
    have hlength := a.length_bytes
    refine ⟨a.sendable, rfl, (length_body streamId a.sendable rfl).trans ?_⟩
    change (Pson.bytes a.payload).length + 12 ≤ 256 * 1024
    omega
  | command frame =>
    have hdata : ∀ channel bytes, frame = .data channel bytes → bytes.length ≤ 4096 := by
      rintro channel bytes rfl
      exact h
    have hlength := CmdFrame.length_bytes hdata
    have hs := CmdFrame.sendable hdata
    have hp : Codec.fieldVarint frame.payload = none := by
      rcases frame with ⟨_ | _, bytes⟩ | ⟨code, _ | _⟩ <;> rfl
    refine ⟨hs, hp, (length_body streamId hs hp).trans ?_⟩
    change (Pson.bytes frame.payload).length + 12 ≤ 256 * 1024
    omega

end SessionData

/-- **What the sessions send arrives.** Any number of payloads, of any streams, with anything behind them: each is read
back under its stream id, equal up to the type an integer is stored with. -/
theorem session_data_arrives (logging : Bool) (ds : List (UInt16 × SessionData)) (rest : Bytes)
    (h : ∀ d ∈ ds, d.2.Buffered) :
    ∃ ms, readMessages logging ds.length ((ds.flatMap fun d => (dataFrame d.1 d.2.payload).encoded) ++ rest) =
        (ms.map .message, rest) ∧
      List.Forall₂ (fun d m => m.messageType = .streamData ∧ m.getStreamId = d.1 ∧
        Same (m.get Field.PAYLOAD) d.2.payload) ds ms := by
  have hdeliver : ∀ d ∈ ds.map fun d => (d.1, d.2.payload), Deliverable d.1 d.2 := by
    intro d hd
    obtain ⟨d', hd', rfl⟩ := List.mem_map.1 hd
    exact (h d' hd').deliverable d'.1
  have harrives := data_arrives logging _ rest hdeliver
  rw [List.length_map, List.flatMap_map, List.map_map] at harrives
  refine ⟨ds.map fun d => arrivedData d.1 d.2.payload, ?_, ?_⟩
  · rw [harrives, List.map_map]
    rfl
  · rw [List.forall₂_map_right_iff, List.forall₂_same]
    intro d hd
    have hs := ((h d hd).deliverable d.1).sendable
    refine ⟨rfl, getStreamId_arrivedData _ _, ?_⟩
    rw [get_arrivedData]
    exact Pson.arrive_same _ hs.wellFormed hs.portable hs.nulFree

theorem session_data_arrives_pair :
    let ds : List (UInt16 × SessionData) := [(7, .bytes [1, 2]), (9, .command (.exit (-1) true))]
    (∀ d ∈ ds, d.2.Buffered) ∧
      ∃ ms : List IotmpMessage,
        readMessages true 2 ((ds.flatMap fun d => (dataFrame d.1 d.2.payload).encoded) ++ [0x05]) =
          (ms.map .message, [0x05]) := by
  intro ds
  have h : ∀ d ∈ ds, d.2.Buffered := by simp [ds, SessionData.Buffered, DEFAULT_CHUNK_SIZE]
  obtain ⟨ms, hread, -⟩ := session_data_arrives true ds [0x05] h
  exact ⟨h, ms, hread⟩

/-! ## One payload -/

/-- what `handle_input` gets at the other end -/
def receivedData (streamId : UInt16) (data : Json) : Option Json :=
  match (readMessage false (dataFrame streamId data).encoded).1 with
  | .message m => some (m.get Field.PAYLOAD)
  | _ => none

theorem Deliverable.received {streamId : UInt16} {data : Json} (h : Deliverable streamId data) :
    receivedData streamId data = some (Pson.arrive data) := by
  have harrives := data_arrives false [(streamId, data)] [] (List.forall_mem_singleton.2 h)
  simp only [List.flatMap_singleton, List.append_nil, List.length_singleton, List.map_cons, List.map_nil, readMessages,
    Prod.mk.injEq, List.cons.injEq, and_true] at harrives
  rw [receivedData, harrives.1]
  exact congrArg some (get_arrivedData streamId data)

end Iotmp
