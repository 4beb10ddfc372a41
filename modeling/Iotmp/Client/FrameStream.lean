/-
Frames in a row (`iotmp_encoder.hpp`: `encode_message`; `client.hpp`: `read_message`).

`encode_message` runs the encoder twice, over a `null_writer` for the size in the header and over the string. The reader
takes one raw type byte, a varint of at most four bytes and that many bytes of body, whatever the decoder then makes of
them.

- `Uniform`: a piece of an encoder that does the same over every writer that never fails, as every value does
  (`encode_uniform`), also one the encoder gives up in the middle of. `written_nullWriter`: the first pass counts the
  bytes of the second.
- `readVarint_encode`: the varint of a size comes back, whatever follows. `readFrame_bytes`: so does a frame.
- `frames_synchronised`: reading what was written one message after the other.
Witness: `frames_synchronised_pair`, a frame that does not decode before one that does.
-/
import Mathlib.Tactic
import Iotmp.Core.Writers
import Iotmp.Client.ReadMessage
import Iotmp.Client.WritePath

namespace Iotmp

/-! ## Writers that never fail -/

/-- `write` returns true -/
class TotalWriter (W : Type) [Writer W] : Prop where
  write_fst (w : W) (bs : Bytes) : (Writer.write w bs).1 = true

instance : TotalWriter StringWriter := ⟨fun _ _ => rfl⟩

instance : TotalWriter NullWriter := ⟨fun _ _ => rfl⟩

/-- the same verdict and the same bytes over every such writer -/
def Uniform (p : (W : Type) → [Writer W] → Put W) : Prop :=
  ∃ ok bs, ∀ (W : Type) [Writer W] [LawfulWriter W] [TotalWriter W] (w : W), p W w = (ok, emit bs w)

theorem Alike.uniform {p : (W : Type) → [Writer W] → Put W} {complete : Prop} (h : Alike p complete) : Uniform p := by
  obtain ⟨bs, ok, -, hp⟩ := h
  refine ⟨ok, bs, ?_⟩
  intro W _ _ _ w
  rw [hp W w, TotalWriter.write_fst, Bool.true_and]
  rfl

namespace Codec

open Pson

/-- every value, with a part the encoder refuses or without -/
theorem encode_uniform (v : Json) : Uniform fun W _ => Pson.encode (W := W) v := (encode_alike v).uniform

/-- **The sizing pass.** It counts the bytes of the body. -/
theorem written_nullWriter (order : List (UInt8 × Json)) :
    (encode order (⟨0⟩ : NullWriter)).written = (body order).length := by
  rw [message_emits order NullWriter]
  exact Nat.zero_add _

/-- `encode_message` writes the type, the size of the body and the body -/
theorem encodeMessage_eq (type : MessageType) (order : List (UInt8 × Json)) :
    encodeMessage type order =
      Leb128.encode type.code.toNat ++ Leb128.encode (UInt64.ofNat (body order).length).toNat ++ body order := by
  have h := ((pbWriteVarint_emits type.code.toUInt64).comp
    ((pbWriteVarint_emits (UInt64.ofNat (body order).length)).comp (message_emits order StringWriter))) ⟨[], 0⟩
  have hcode : type.code.toUInt64.toNat = type.code.toNat := UInt8.toNat_toUInt64 _
  rw [encodeMessage, written_nullWriter]
  refine (congrArg StringWriter.string h).trans ?_
  rw [hcode, List.append_assoc]
  rfl

/-! ## The decoder keeps the type -/

theorem messageType_decodeLoop (size startRead fuel : ℕ) (message : IotmpMessage) (r : MemoryReader) :
    (decodeLoop size startRead fuel message r).2.1.messageType = message.messageType := by
  induction fuel generalizing message r with
  | zero => rfl
  | succ fuel ih =>
    unfold decodeLoop
    split_ifs
    · rfl
    · rcases decodeField r with _ | ⟨⟨wireType, fieldNumber⟩, r1⟩
      · rfl
      · cases wireType with
        | varint =>
          rcases hv : pbDecodeVarint r1 with _ | ⟨value, r2⟩
          · simp only [hv]
          · simp only [hv]
            exact ih _ r2
        | psonV2 =>
          rcases hd : Pson.decode r1 (message.get (UInt8.ofNat fieldNumber)) with ⟨_ | _, value, r2⟩
          · simp only [hd]
            rfl
          · simp only [hd]
            exact ih _ r2
        | psonV1 => rfl
        | unknown code => rfl

end Codec

theorem Frame.messageType_message (frame : Frame) : frame.message.messageType = frame.type := by
  unfold Frame.message
  split_ifs
  · exact Codec.messageType_decodeLoop _ _ _ _ _
  · rfl

/-! ## The size comes back -/

theorem and_0x80 (b : UInt8) : b &&& 0x80 ≠ 0 ↔ 128 ≤ b.toNat := by
  have key : ∀ n : Fin 256, UInt8.ofNat n &&& 0x80 ≠ 0 ↔ 128 ≤ (UInt8.ofNat n).toNat := by decide +kernel
  simpa using key ⟨b.toNat, b.toNat_lt⟩

/-- one round of `read_varint` -/
theorem readVarintLoop_cons (rounds bitPos value : ℕ) (b : UInt8) (input : Bytes) (hbit : bitPos + 7 < 32)
    (hv : value < 2 ^ bitPos) :
    readVarintLoop (rounds + 1) bitPos value (b :: input) =
      if 128 ≤ b.toNat then
        readVarintLoop rounds (bitPos + 7) ((value + 2 ^ bitPos * (b.toNat % 128)) % 2 ^ 32) input
      else some ((value + 2 ^ bitPos * (b.toNat % 128)) % 2 ^ 32, input) := by
  simp only [readVarintLoop, if_neg (not_le.2 hbit), and_0x80, Pson.toNat_and_0x7F]
  rw [Leb128.or_chunk _ (by omega) hv]

/-- a code of at most four bytes is read whole -/
theorem readVarintLoop_code (rounds bitPos value : ℕ) (bs tl : Bytes) (hc : Leb128.Code bs) (hv : value < 2 ^ bitPos)
    (hbit : bitPos + 7 * bs.length < 32) (hr : bs.length ≤ rounds) :
    readVarintLoop rounds bitPos value (bs ++ tl) =
      some ((value + 2 ^ bitPos * Leb128.value bs) % 2 ^ 32, tl) := by
  induction bs generalizing rounds bitPos value with
  | nil => exact absurd hc id
  | cons b bs ih =>
    rw [List.length_cons] at hbit hr
    obtain ⟨rounds, rfl⟩ : ∃ k, rounds = k + 1 := ⟨rounds - 1, by omega⟩
    rw [List.cons_append, readVarintLoop_cons _ _ _ _ _ (by omega) hv]
    cases bs with
    | nil =>
      have hb : b.toNat < 128 := hc
      rw [if_neg (by omega)]
      simp [Leb128.value]
    | cons c cs =>
      obtain ⟨hb, hc'⟩ : 128 ≤ b.toNat ∧ Leb128.Code (c :: cs) := hc
      rw [if_pos hb, ih _ _ _ hc' (Pson.chunk_lt 32 b hv) (by omega) (by omega),
        Leb128.value_cons_step bitPos value b, Nat.mod_add_mod]

theorem readVarint_encode (n : ℕ) (hn : n < 2 ^ 28) (tl : Bytes) :
    readVarint (Leb128.encode n ++ tl) = some (n, tl) := by
  have hlen : (Leb128.encode n).length ≤ 4 := Leb128.length_encode_le (by norm_num) (by norm_num; omega)
  rw [readVarint, readVarintLoop_code 5 0 0 _ tl (Leb128.encode_code n) (by norm_num) (by omega) (by omega),
    Leb128.value_encode, Nat.pow_zero, Nat.one_mul, Nat.zero_add, Nat.mod_eq_of_lt (by omega)]

/-! ## Frames on the wire -/

/-- the raw type byte, the size and the body -/
def Frame.bytes (frame : Frame) : Bytes := frame.typeByte :: (Leb128.encode frame.body.length ++ frame.body)

/-- **A frame is read whole**, whatever its body is, and the next one starts where it ends. -/
theorem readFrame_bytes (frame : Frame) (h : frame.body.length ≤ MAX_MESSAGE_SIZE) (rest : Bytes) :
    readFrame (frame.bytes ++ rest) = some (frame, rest) := by
  have hmax : MAX_MESSAGE_SIZE < 2 ^ 28 := by decide
  have hread := readVarint_encode frame.body.length (by omega) (frame.body ++ rest)
  have htake : socketRead frame.body.length (frame.body ++ rest) = some (frame.body, rest) := by
    simp [socketRead]
  simp only [Frame.bytes, List.cons_append, List.append_assoc, readFrame, hread, if_neg (not_lt.2 h), htake]

/-- the frames that `n` calls of `read_message` take off the socket, and what is left there -/
def readFrames : ℕ → Bytes → Option (List Frame × Bytes)
  | 0, input => some ([], input)
  | n + 1, input =>
    match readFrame input with
    | none => none
    | some (frame, input) => (readFrames n input).map fun p => (frame :: p.1, p.2)

/-- what `n` calls of `read_message` return, and what is left on the socket -/
def readMessages (logging : Bool) : ℕ → Bytes → List ReadOutcome × Bytes
  | 0, input => ([], input)
  | n + 1, input =>
    let (outcome, input) := readMessage logging input
    let (outcomes, input) := readMessages logging n input
    (outcome :: outcomes, input)

theorem readFrames_bytes (frames : List Frame) (h : ∀ f ∈ frames, f.body.length ≤ MAX_MESSAGE_SIZE) (rest : Bytes) :
    readFrames frames.length (frames.flatMap Frame.bytes ++ rest) = some (frames, rest) := by
  induction frames with
  | nil => rfl
  | cons f frames ih =>
    obtain ⟨hf, hfs⟩ := List.forall_mem_cons.1 h
    rw [List.flatMap_cons, List.append_assoc, List.length_cons, readFrames, readFrame_bytes f hf]
    simp only [ih hfs, Option.map_some]

theorem readMessages_bytes {logging : Bool} (frames : List Frame)
    (h : ∀ f ∈ frames, f.body.length ≤ MAX_MESSAGE_SIZE) (hlogs : ∀ f ∈ frames, f.message.Logs logging) (rest : Bytes) :
    readMessages logging frames.length (frames.flatMap Frame.bytes ++ rest) =
      (frames.map fun f => .message f.message, rest) := by
  induction frames with
  | nil => rfl
  | cons f frames ih =>
    obtain ⟨hf, hfs⟩ := List.forall_mem_cons.1 h
    obtain ⟨hl, hls⟩ := List.forall_mem_cons.1 hlogs
    rw [List.flatMap_cons, List.append_assoc, List.length_cons, readMessages,
      readMessage_frame logging (readFrame_bytes f hf _), if_pos hl]
    simp only [ih hfs hls, List.map_cons]

/-! ## Messages in a row -/

/-- a type whose code is one byte as a varint too; `enum type` has no values from 16 on -/
def MessageType.OneByte (type : MessageType) : Prop := ∃ c : UInt8, c.toNat < 128 ∧ type = .ofCode c

theorem MessageType.code_ofCode (c : UInt8) : (MessageType.ofCode c).code = c := by
  unfold MessageType.ofCode
  split <;> rfl

/-- the frame of a message -/
def Outgoing.frame (m : Outgoing) : Frame := ⟨m.message.messageType.code, Codec.body m.fields⟩

theorem Outgoing.type_frame (m : Outgoing) (h : m.message.messageType.OneByte) :
    m.frame.type = m.message.messageType := by
  obtain ⟨c, -, hc⟩ := h
  rw [Frame.type, Outgoing.frame, hc, MessageType.code_ofCode]

theorem Outgoing.encoded_eq (m : Outgoing) (htype : m.message.messageType.OneByte)
    (hbody : (Codec.body m.fields).length ≤ MAX_MESSAGE_SIZE) : m.encoded = m.frame.bytes := by
  obtain ⟨c, hlt, hc⟩ := htype
  have hcode : m.message.messageType.code = c := by rw [hc, MessageType.code_ofCode]
  have hmax : MAX_MESSAGE_SIZE < 2 ^ 64 := by decide
  have hsize : (UInt64.ofNat (Codec.body m.fields).length).toNat = (Codec.body m.fields).length := by
    rw [UInt64.toNat_ofNat', Nat.mod_eq_of_lt (by omega)]
  rw [Outgoing.encoded, Codec.encodeMessage_eq, hsize, hcode, Leb128.encode_of_lt hlt, UInt8.ofNat_toNat]
  simp only [Frame.bytes, Outgoing.frame, hcode, List.cons_append, List.nil_append]

section

variable {ms : List Outgoing} (htype : ∀ m ∈ ms, m.message.messageType.OneByte)
  (hbody : ∀ m ∈ ms, (Codec.body m.fields).length ≤ MAX_MESSAGE_SIZE)

include htype hbody

theorem flatMap_encoded : ms.flatMap Outgoing.encoded = (ms.map Outgoing.frame).flatMap Frame.bytes := by
  rw [List.flatMap_map]
  exact List.flatMap_congr fun m hm => m.encoded_eq (htype m hm) (hbody m hm)

/-- messages that the receiver can log are read back -/
theorem readMessages_encoded {logging : Bool} (hlogs : ∀ m ∈ ms, m.frame.message.Logs logging) (rest : Bytes) :
    readMessages logging ms.length (ms.flatMap Outgoing.encoded ++ rest) =
      (ms.map fun m => .message m.frame.message, rest) := by
  have hread := readMessages_bytes (ms.map Outgoing.frame) (List.forall_mem_map.2 hbody) (List.forall_mem_map.2 hlogs)
    rest
  rw [List.length_map, List.map_map] at hread
  rw [flatMap_encoded htype hbody, hread]
  rfl

end

/-- **Frame synchronisation.** The frames of any messages, one after the other and with anything behind them, are read
back one by one: the decoder gets every body as it was written, every message has its type, whether or not a body
decodes, and what followed is left. The size in each header is the length of the body. -/
theorem frames_synchronised (ms : List Outgoing) (rest : Bytes) (htype : ∀ m ∈ ms, m.message.messageType.OneByte)
    (hbody : ∀ m ∈ ms, (Codec.body m.fields).length ≤ MAX_MESSAGE_SIZE) :
    readFrames ms.length (ms.flatMap Outgoing.encoded ++ rest) = some (ms.map Outgoing.frame, rest) ∧
      readMessages false ms.length (ms.flatMap Outgoing.encoded ++ rest) =
        (ms.map fun m => .message m.frame.message, rest) ∧
      ∀ m ∈ ms, m.frame.message.messageType = m.message.messageType ∧ m.frame.body = Codec.body m.fields ∧
        (Codec.encode m.fields (⟨0⟩ : NullWriter)).written = (Codec.body m.fields).length := by
  have hread := readFrames_bytes (ms.map Outgoing.frame) (List.forall_mem_map.2 hbody) rest
  rw [List.length_map, ← flatMap_encoded htype hbody] at hread
  have hlogs : ∀ m ∈ ms, m.frame.message.Logs false := fun _ _ hon => absurd hon Bool.false_ne_true
  refine ⟨hread, readMessages_encoded htype hbody hlogs rest, fun m hm => ⟨?_, rfl, Codec.written_nullWriter _⟩⟩
  rw [Frame.messageType_message, m.type_frame (htype m hm)]

/-- an OK with the number 2 ^ 35 for its payload, which the decoder refuses -/
def refusedOk : Outgoing where
  message := ({ messageType := .ok } : IotmpMessage).setField Field.PAYLOAD (.numberUnsigned 0x800000000)
  fields := [(Field.PAYLOAD, .numberUnsigned 0x800000000)]
  perm := List.Perm.refl _

/-- stream data after it -/
def dataAfter : Outgoing where
  message := IotmpMessage.withStreamId 7 .streamData
  fields := [(Field.STREAM_ID, .numberUnsigned 7)]
  perm := List.Perm.refl _

theorem frames_synchronised_pair :
    refusedOk.frame.Malformed ∧
      readFrames 2 ([refusedOk, dataAfter].flatMap Outgoing.encoded ++ [0x05]) =
        some ([refusedOk.frame, dataAfter.frame], [0x05]) := by
  refine ⟨by unfold Frame.Malformed; decide, ?_⟩
  refine (frames_synchronised [refusedOk, dataAfter] [0x05] (fun m hm => ?_) fun m hm => ?_).1
  · rcases List.mem_pair.1 hm with rfl | rfl
    · exact ⟨0x01, by decide, rfl⟩
    · exact ⟨0x0a, by decide, rfl⟩
  · rcases List.mem_pair.1 hm with rfl | rfl <;> decide

end Iotmp
