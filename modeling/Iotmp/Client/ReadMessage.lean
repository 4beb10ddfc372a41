/-
Reading messages (`client.hpp`: `read_message`, `read_varint` and its three callers).

`input` is what the socket still delivers. A read of `n` bytes fails if fewer are left, as it does when the connection
ends first. `readMessage` looks at no verdict of the decoder: it hands a message on with whatever fields the decoder has
stored. Only the logger can stop it, by throwing.

- `readMessage_frame`: what happens to a frame that was read whole.
- `malformed_no_effect_iff`: a frame the decoder refuses has no effect iff the logger throws on the fields stored so
  far.
Witness: `malformed_unprintable_no_effect`. Counterexample: `truncated_run_handled`, a cut RUN frame that reaches
`handle_message`.
-/
import Mathlib.Tactic
import Iotmp.Core.Codec
import Iotmp.Core.Logger

namespace Iotmp

/-! ## From bytes to frames -/

/-- `socket_->read(buffer, n)` -/
def socketRead (n : ℕ) (input : Bytes) : Option (Bytes × Bytes) :=
  if n ≤ input.length then some (input.take n, input.drop n) else none

/-- the loop of `read_varint`; the fifth byte ends it, whatever it is -/
def readVarintLoop : ℕ → ℕ → ℕ → Bytes → Option (ℕ × Bytes)
  | 0, _, _, _ => none
  | rounds + 1, bitPos, value, input =>
    match input with
    | [] => none
    | byte :: input =>
      let value := value ||| ((byte &&& 0x7F).toNat <<< bitPos) % 2 ^ 32
      let bitPos := bitPos + 7
      if 32 ≤ bitPos then none
      else if byte &&& 0x80 ≠ 0 then readVarintLoop rounds bitPos value input else some (value, input)

def readVarint (input : Bytes) : Option (ℕ × Bytes) := readVarintLoop 5 0 0 input

def MAX_MESSAGE_SIZE : ℕ := 256 * 1024

structure Frame where
  typeByte : UInt8
  body : Bytes
deriving DecidableEq

/-- the header and the body, as `read_message` takes them off the socket -/
def readFrame (input : Bytes) : Option (Frame × Bytes) :=
  match input with
  | [] => none
  | typeByte :: input =>
    match readVarint input with
    | none => none
    | some (size, input) =>
      if MAX_MESSAGE_SIZE < size then none
      else
        match socketRead size input with
        | none => none
        | some (body, input) => some (⟨typeByte, body⟩, input)

/-! ## read_message -/

inductive ReadOutcome where
  | nullopt
  | message (m : IotmpMessage)
  | throws

def Frame.type (frame : Frame) : MessageType := MessageType.ofCode frame.typeByte

/-- the message after `decoder.decode(message, *size)`, which is not run on an empty body -/
def Frame.message (frame : Frame) : IotmpMessage :=
  if 0 < frame.body.length then (Codec.decodeBody frame.type frame.body).2.1 else { messageType := frame.type }

def readMessage (logging : Bool) (input : Bytes) : ReadOutcome × Bytes :=
  match readFrame input with
  | none => (.nullopt, [])
  | some (frame, rest) => (if frame.message.Logs logging then .message frame.message else .throws, rest)

/-! ## The three callers -/

inductive Consumer where
  | readLoop
  | waitResponse (request : IotmpMessage) (wantsPayload : Bool)
  | authenticate

/-- what a caller does with the outcome -/
inductive Effect where
  /-- `handle_message` runs on the message -/
  | handle (m : IotmpMessage)
  /-- the pending `wait_response` or `authenticate` ends with this answer -/
  | answer (success : Bool) (payload : Option Json)
  /-- the caller ends as it does when the connection is gone -/
  | disconnected
  /-- the exception passes through the caller -/
  | throws

def consume : Consumer → ReadOutcome → Effect
  | _, .throws => .throws
  | .readLoop, .nullopt => .disconnected
  | .readLoop, .message m => .handle m
  | .waitResponse _ _, .nullopt => .disconnected
  | .waitResponse request wantsPayload, .message m =>
    if request.getStreamId = m.getStreamId ∧ m.messageType.code ≤ MessageType.error.code then
      .answer (m.messageType = .ok)
        (if wantsPayload && m.hasField Field.PAYLOAD then some (m.get Field.PAYLOAD) else none)
    else .handle m
  | .authenticate, .nullopt => .disconnected
  | .authenticate, .message m => .answer (m.messageType = .ok) none

/-- no handler ran, and nothing that waited was answered -/
def Effect.None : Effect → Prop
  | .handle _ => False
  | .answer _ _ => False
  | .disconnected => True
  | .throws => True

/-! ## Malformed frames -/

/-- the decoder returns false on the frame's body -/
def Frame.Malformed (frame : Frame) : Prop := (Codec.decodeBody frame.type frame.body).1 = false

theorem decodeBody_nil (type : MessageType) : (Codec.decodeBody type []).1 = true := rfl

theorem Frame.Malformed.message_eq {frame : Frame} (h : frame.Malformed) :
    frame.message = (Codec.decodeBody frame.type frame.body).2.1 := by
  refine if_pos (List.length_pos_iff.2 fun hnil => ?_)
  rw [Malformed, hnil, decodeBody_nil] at h
  exact Bool.false_ne_true h.symm

/-- whoever reads a message acts on it -/
theorem consume_message (consumer : Consumer) (m : IotmpMessage) : ¬ (consume consumer (.message m)).None := by
  cases consumer with
  | readLoop => exact id
  | waitResponse request wantsPayload =>
    simp only [consume]
    split_ifs <;> exact id
  | authenticate => exact id

theorem consume_throws (consumer : Consumer) : (consume consumer .throws).None := by
  cases consumer <;> trivial

theorem readMessage_frame (logging : Bool) {input rest : Bytes} {frame : Frame}
    (h : readFrame input = some (frame, rest)) :
    readMessage logging input =
      (if frame.message.Logs logging then .message frame.message else .throws, rest) := by
  rw [readMessage, h]

/-- **Malformed frames.** A frame that the decoder refuses passes through `read_message` and its caller without effect
exactly when logging is on, it is not stream data, and the fields stored before the failure make the logger throw. -/
theorem malformed_no_effect_iff (logging : Bool) (consumer : Consumer) (input rest : Bytes) (frame : Frame)
    (hread : readFrame input = some (frame, rest)) (hbad : frame.Malformed) :
    (consume consumer (readMessage logging input).1).None ↔
      ¬ (Codec.decodeBody frame.type frame.body).2.1.Logs logging := by
  rw [readMessage_frame logging hread, hbad.message_eq]
  by_cases h : (Codec.decodeBody frame.type frame.body).2.1.Logs logging
  · rw [if_pos h]
    exact iff_of_false (consume_message consumer _) (not_not.2 h)
  · rw [if_neg h]
    exact iff_of_true (consume_throws consumer) h

/-- a RUN frame whose parameters are the byte 0xFF as a string, cut inside its payload -/
def unprintableRun : Bytes := [0x06, 0x05, 0x12, 0x81, 0xFF, 0x1A, 0x85]

theorem malformed_unprintable_no_effect : (consume .readLoop (readMessage true unprintableRun).1).None :=
  (malformed_no_effect_iff true .readLoop unprintableRun [] ⟨0x06, [0x12, 0x81, 0xFF, 0x1A, 0x85]⟩ (by decide)
    (by unfold Frame.Malformed; decide)).2 (by decide)

/-- a RUN frame for the resource `led`, cut inside its payload -/
def truncatedRun : Bytes := [0x06, 0x07, 0x22, 0x83, 0x6C, 0x65, 0x64, 0x1A, 0x85]

/-- the decoder refuses the body, and `handle_message` runs on a RUN of `led` -/
theorem truncated_run_handled :
    readFrame truncatedRun = some (⟨0x06, [0x22, 0x83, 0x6C, 0x65, 0x64, 0x1A, 0x85]⟩, []) ∧
      (Codec.decodeBody .run [0x22, 0x83, 0x6C, 0x65, 0x64, 0x1A, 0x85]).1 = false ∧
        ∃ m, consume .readLoop (readMessage true truncatedRun).1 = .handle m ∧ m.messageType = .run ∧
          m.fields.get Field.RESOURCE = some (.string [0x6C, 0x65, 0x64]) :=
  ⟨by decide, by decide, _, rfl, rfl, rfl⟩

end Iotmp
