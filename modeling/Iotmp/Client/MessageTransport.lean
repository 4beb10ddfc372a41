/-
Messages on the wire, from the sender's `encode_message` to the receiver's `read_message`.

- `Outgoing.Carried`: what the codec carries of a message unchanged, and a receiver takes.
- `Outgoing.Carried.arrived`: it arrives with its type and with equal fields. What is equal prints, names its stream and
  is a response alike.
- `readFrame_append`: a frame that was read is read whatever comes after it, so a frame cut short is not read at all
  (`readFrame_cut`).
- `messages_arrive`: any number of messages, with anything behind them.
Witness: `messages_arrive_pair`.
-/
import Mathlib.Tactic
import Iotmp.Client.FrameStream
import Iotmp.Client.Connections

namespace Iotmp

open Json

/-! ## Equal values -/

namespace Json

theorem printable_array {es : List Json} : Printable (.array es) ↔ ∀ e ∈ es, Printable e := by
  simp [Printable, every_array, printableNode]

theorem printable_object {ms : List (Bytes × Json)} :
    Printable (.object ms) ↔ ∀ m ∈ ms, Utf8.valid m.1 = true ∧ Printable m.2 := by
  simp only [Printable, every_object, printableNode, List.all_eq_true]
  exact ⟨fun h m hm => ⟨h.1 m hm, h.2 m hm⟩, fun h => ⟨fun m hm => (h m hm).1, fun m hm => (h m hm).2⟩⟩

theorem printable_norm (v : Json) : Printable (norm v) ↔ Printable v := by
  induction v using Json.ind with
  | numberInteger v =>
    rw [norm]
    split_ifs
    · exact Iff.rfl
    · exact Iff.rfl
  | array es ih =>
    simp only [norm, normElements_eq, printable_array, List.forall_mem_map]
    exact forall₂_congr ih
  | object ms ih =>
    simp only [norm, normMembers_eq, printable_object, List.forall_mem_map]
    exact forall₂_congr fun m hm => and_congr_right fun _ => ih m hm
  | _ => exact Iff.rfl

theorem Same.printable {a b : Json} (h : Same a b) : Printable a ↔ Printable b := by
  calc Printable a ↔ Printable (norm a) := (printable_norm a).symm
    _ ↔ Printable (norm b) := by rw [h]
    _ ↔ Printable b := printable_norm b

theorem getUInt16_norm (v : Json) : getUInt16 (norm v) = getUInt16 v := by
  cases v with
  | numberInteger v =>
    rw [norm]
    split_ifs
    · rfl
    · rfl
  | _ => rfl

theorem getUInt16_same {a b : Json} (h : Same a b) : getUInt16 a = getUInt16 b := by
  calc getUInt16 a = getUInt16 (norm a) := (getUInt16_norm a).symm
    _ = getUInt16 (norm b) := by rw [h]
    _ = getUInt16 b := getUInt16_norm b

end Json

namespace Codec.SameFields

variable {a b : IotmpMessage}

theorem cases (h : SameFields a b) (field : UInt8) :
    a.fields.get field = none ∧ b.fields.get field = none ∨
      ∃ v w, a.fields.get field = some v ∧ b.fields.get field = some w ∧ Same v w := by
  have hfield := h field
  generalize a.fields.get field = x at hfield
  generalize b.fields.get field = y at hfield
  cases hfield with
  | none => exact .inl ⟨rfl, rfl⟩
  | some hsame => exact .inr ⟨_, _, rfl, rfl, hsame⟩

theorem get (h : SameFields a b) (field : UInt8) : Same (a.get field) (b.get field) := by
  rw [IotmpMessage.get, IotmpMessage.get]
  rcases h.cases field with ⟨ha, hb⟩ | ⟨v, w, ha, hb, hsame⟩
  · rw [ha, hb]
    rfl
  · rw [ha, hb]
    exact hsame

theorem hasField (h : SameFields a b) (field : UInt8) : a.hasField field = b.hasField field := by
  rw [IotmpMessage.hasField, IotmpMessage.hasField]
  rcases h.cases field with ⟨ha, hb⟩ | ⟨v, w, ha, hb, -⟩
  · rw [ha, hb]
  · rw [ha, hb]
    rfl

theorem getStreamId (h : SameFields a b) : a.getStreamId = b.getStreamId := by
  rw [IotmpMessage.getStreamId, IotmpMessage.getStreamId]
  rcases h.cases Field.STREAM_ID with ⟨ha, hb⟩ | ⟨v, w, ha, hb, hsame⟩
  · rw [ha, hb]
  · rw [ha, hb, Option.bind_some, Option.bind_some, getUInt16_same hsame]

end Codec.SameFields

namespace IotmpMessage

open Codec

theorem printable_dumpedResource (v : Json) :
    (dumpedResource (Json.norm v)).Printable ↔ (dumpedResource v).Printable := by
  cases v with
  | numberInteger v =>
    rw [Json.norm]
    split_ifs
    · exact Iff.rfl
    · exact Iff.rfl
  | array es => exact printable_norm (.array es)
  | _ => exact Iff.rfl

theorem printable_dumpedPayload (v : Json) :
    (dumpedPayload (Json.norm v)).Printable ↔ (dumpedPayload v).Printable := by
  cases v with
  | numberInteger v =>
    rw [Json.norm]
    split_ifs
    · exact Iff.rfl
    · exact Iff.rfl
  | array es => exact printable_norm (.array es)
  | object ms => exact printable_norm (.object ms)
  | _ => exact Iff.rfl

theorem dumpable_same {a b : IotmpMessage} (h : SameFields a b) : a.Dumpable ↔ b.Dumpable := by
  have hresource : Json.norm (a.get Field.RESOURCE) = Json.norm (b.get Field.RESOURCE) := h.get Field.RESOURCE
  have hpayload : Json.norm (a.get Field.PAYLOAD) = Json.norm (b.get Field.PAYLOAD) := h.get Field.PAYLOAD
  refine and_congr ?_ (and_congr (h.get _).printable ?_)
  · rw [← printable_dumpedResource (a.get _), hresource, printable_dumpedResource]
  · rw [← printable_dumpedPayload (a.get _), hpayload, printable_dumpedPayload]

theorem logs_same {a b : IotmpMessage} (ht : a.messageType = b.messageType) (h : SameFields a b) (logging : Bool) :
    a.Logs logging ↔ b.Logs logging := by
  rw [Logs, Logs, ht, dumpable_same h]

end IotmpMessage

/-! ## One message -/

/-- what arrives as it was sent: fields of the protocol, values that PSON keeps, integers at the top of a field that a
varint of 32 bits holds, and a body that the receiver takes -/
structure Outgoing.Carried (m : Outgoing) : Prop where
  oneByte : m.message.messageType.OneByte
  protocol : ∀ e ∈ m.message.fields.entries, e.1 ∈ Field.protocol
  sendable : ∀ e ∈ m.message.fields.entries, Codec.Sendable e.2
  fits : ∀ e ∈ m.message.fields.entries, Codec.FitsVarint e.2
  size : (Codec.body m.fields).length ≤ MAX_MESSAGE_SIZE

/-- the message at the other end -/
def Outgoing.arrived (m : Outgoing) : IotmpMessage := m.frame.message

/-- an empty body is not decoded, which makes no difference -/
theorem Frame.message_eq (frame : Frame) : frame.message = (Codec.decodeBody frame.type frame.body).2.1 := by
  rw [message]
  split_ifs with hbody
  · rfl
  · have hnil : frame.body = [] := List.length_eq_zero_iff.1 (by omega)
    rw [hnil]
    rfl

namespace Outgoing.Carried

variable {m : Outgoing}

theorem arrived (h : m.Carried) :
    m.arrived.messageType = m.message.messageType ∧ Codec.SameFields m.arrived m.message := by
  obtain ⟨m', r, hdecode, hsame⟩ := Codec.roundTrips_of_fits h.protocol h.sendable h.fits m.fields m.perm
  have htype := m.type_frame h.oneByte
  have hmessage : m.arrived = m' := by
    rw [Outgoing.arrived, Frame.message_eq, htype]
    exact congrArg (fun d => d.2.1) hdecode
  refine ⟨?_, hmessage ▸ hsame⟩
  rw [Outgoing.arrived, Frame.messageType_message, htype]

theorem encoded_eq (h : m.Carried) : m.encoded = m.frame.bytes := m.encoded_eq h.oneByte h.size

theorem logs (h : m.Carried) (logging : Bool) : m.arrived.Logs logging ↔ m.message.Logs logging :=
  IotmpMessage.logs_same h.arrived.1 h.arrived.2 logging

/-- **A message is read back**, if the receiver's logger can print it. -/
theorem read (h : m.Carried) {logging : Bool} (hlogs : m.message.Logs logging) (rest : Bytes) :
    readMessage logging (m.encoded ++ rest) = (.message m.arrived, rest) := by
  rw [h.encoded_eq, readMessage_frame logging (readFrame_bytes m.frame h.size rest)]
  exact congrArg (·, rest) (if_pos ((h.logs logging).2 hlogs))

end Outgoing.Carried

/-! ## Frames that are not all there -/

theorem readVarintLoop_append (rounds bitPos value : ℕ) {input rest : Bytes} {n : ℕ}
    (h : readVarintLoop rounds bitPos value input = some (n, rest)) (more : Bytes) :
    readVarintLoop rounds bitPos value (input ++ more) = some (n, rest ++ more) := by
  induction rounds generalizing bitPos value input with
  | zero => exact absurd h (by simp [readVarintLoop])
  | succ rounds ih =>
    cases input with
    | nil => exact absurd h (by simp [readVarintLoop])
    | cons byte input =>
      simp only [List.cons_append, readVarintLoop] at h ⊢
      split_ifs at h ⊢ with hbit hmore
      · exact ih _ _ h
      · obtain ⟨rfl, rfl⟩ := by simpa using h
        rfl

theorem socketRead_append {n : ℕ} {input body rest : Bytes} (h : socketRead n input = some (body, rest)) (more : Bytes) :
    socketRead n (input ++ more) = some (body, rest ++ more) := by
  rw [socketRead] at h ⊢
  split_ifs at h with hlength
  obtain ⟨rfl, rfl⟩ := by simpa using h
  rw [if_pos (by rw [List.length_append]; omega), List.take_append_of_le_length hlength,
    List.drop_append_of_le_length hlength]

/-- a frame that was read is read the same, whatever comes after it -/
theorem readFrame_append {input rest : Bytes} {frame : Frame} (h : readFrame input = some (frame, rest)) (more : Bytes) :
    readFrame (input ++ more) = some (frame, rest ++ more) := by
  cases input with
  | nil => exact absurd h (by simp [readFrame])
  | cons typeByte input =>
    simp only [List.cons_append, readFrame] at h ⊢
    rcases hsize : readVarint input with _ | ⟨size, input'⟩
    · simp [hsize] at h
    · have hmore : readVarint (input ++ more) = some (size, input' ++ more) := readVarintLoop_append 5 0 0 hsize more
      simp only [hsize] at h
      simp only [hmore]
      split_ifs at h ⊢ with hmax
      rcases hbody : socketRead size input' with _ | ⟨body, input''⟩
      · simp [hbody] at h
      · simp only [hbody, Option.some.injEq, Prod.mk.injEq] at h
        obtain ⟨rfl, rfl⟩ := h
        simp only [socketRead_append hbody more]

/-- **A frame cut short is not read.** -/
theorem readFrame_cut {frame : Frame} (h : frame.body.length ≤ MAX_MESSAGE_SIZE) {cut more : Bytes}
    (hcut : cut ++ more = frame.bytes) (hmore : more ≠ []) : readFrame cut = none := by
  rcases hread : readFrame cut with _ | ⟨frame', rest⟩
  · rfl
  · have hlonger := readFrame_append hread more
    have hwhole := readFrame_bytes frame h []
    rw [List.append_nil] at hwhole
    rw [hcut, hwhole] at hlonger
    obtain ⟨-, hrest⟩ := by simpa using hlonger
    exact absurd hrest.2 hmore

/-- the receiver of a message cut short takes the connection for lost -/
theorem Outgoing.Carried.read_cut {m : Outgoing} (h : m.Carried) {cut more : Bytes} (hcut : cut ++ more = m.encoded)
    (hmore : more ≠ []) (logging : Bool) : readMessage logging cut = (.nullopt, []) := by
  rw [readMessage, readFrame_cut h.size (hcut.trans h.encoded_eq) hmore]

/-! ## Messages in a row -/

/-- **Messages arrive.** Whatever messages the codec carries and the receiver can log are read back one by one, each with
its type and with equal fields, and what follows them is left. -/
theorem messages_arrive (logging : Bool) (ms : List Outgoing) (rest : Bytes) (hcarried : ∀ m ∈ ms, m.Carried)
    (hlogs : ∀ m ∈ ms, m.message.Logs logging) :
    ∃ arrived : List IotmpMessage,
      readMessages logging ms.length (ms.flatMap Outgoing.encoded ++ rest) = (arrived.map .message, rest) ∧
      List.Forall₂ (fun m m' => m'.messageType = m.message.messageType ∧ Codec.SameFields m' m.message) ms arrived := by
  refine ⟨ms.map Outgoing.arrived, ?_, ?_⟩
  · induction ms with
    | nil => rfl
    | cons m ms ih =>
      obtain ⟨hm, hms⟩ := List.forall_mem_cons.1 hcarried
      obtain ⟨hl, hls⟩ := List.forall_mem_cons.1 hlogs
      rw [List.flatMap_cons, List.append_assoc, List.length_cons, readMessages, hm.read hl]
      simp only [ih hms hls, List.map_cons]
  · rw [List.forall₂_map_right_iff, List.forall₂_same]
    exact fun m hm => (hcarried m hm).arrived

theorem messages_arrive_pair :
    let ms := [Outgoing.ofMessage (.withStreamId 7 .ok), .ofMessage { messageType := .keepAlive }]
    ∃ arrived : List IotmpMessage,
      readMessages true 2 (ms.flatMap Outgoing.encoded ++ [0x05]) = (arrived.map .message, [0x05]) := by
  intro ms
  have hcarried : ∀ m ∈ ms, m.Carried := by
    intro m hm
    rcases List.mem_pair.1 hm with rfl | rfl
    · refine ⟨⟨0x01, by decide, rfl⟩, by decide, ?_, ?_, by decide⟩
      · exact List.forall_mem_singleton.2 ⟨by decide, by decide, by decide⟩
      · exact List.forall_mem_singleton.2 (by simp [Codec.FitsVarint, intValue])
    · exact ⟨⟨0x05, by decide, rfl⟩, by decide, List.forall_mem_nil _, List.forall_mem_nil _, by decide⟩
  have hlogs : ∀ m ∈ ms, m.message.Logs true := by decide
  obtain ⟨arrived, hread, -⟩ := messages_arrive true ms [0x05] hcarried hlogs
  exact ⟨arrived, hread⟩

end Iotmp
