/-
The message codec (`iotmp_encoder.hpp`, `iotmp_decoder.hpp`): the body of a frame.

A field is a tag varint, the field number above three bits of wire type, and a value: an integer as a bare varint,
anything else as PSON. The encoder looks at no write result. The decoder fills the message field by field and stops at
the first failure, with what it has stored so far.

- `encode` runs over the fields in the order it is given, the iteration order of the `unordered_map`.
- `decodeLoop` bounds the rounds by `fuel`; every round reads a tag, so the length of the input is enough
  (`decodeLoop_eq`).
-/
import Mathlib.Tactic
import Iotmp.Core.PsonReads
import Iotmp.Core.Message

namespace Iotmp

/-- `message::wire_type` -/
inductive WireType where
  | varint
  | psonV1
  | psonV2
  | unknown (code : ℕ)
deriving DecidableEq, Repr

namespace WireType

def code : WireType → UInt8
  | varint => 0x00
  | psonV1 => 0x01
  | psonV2 => 0x02
  | unknown code => UInt8.ofNat code

/-- `static_cast<message::wire_type>(temp & 0x07)` -/
def ofCode (c : ℕ) : WireType :=
  if c = 0x00 then varint else if c = 0x01 then psonV1 else if c = 0x02 then psonV2 else unknown c

end WireType

namespace Codec

/-! ## iotmp_encoder -/

section Encoder

variable {W : Type} [Writer W]

/-- the `do … while(value > 0)` of `pb_write_varint`; ten rounds cover 64 bits -/
def pbWriteVarintLoop : ℕ → UInt64 → W → W
  | 0, _, w => w
  | rounds + 1, value, w =>
    let byte := (value &&& 0x7F).toUInt8
    let value := value >>> 7
    let byte := if 0 < value then byte ||| 0x80 else byte
    let w := emit [byte] w
    if 0 < value then pbWriteVarintLoop rounds value w else w

def pbWriteVarint (value : UInt64) : W → W := pbWriteVarintLoop 10 value

def encodeField (wireType : WireType) (fieldNumber : UInt8) : W → W := emit [(fieldNumber <<< 3) ||| wireType.code]

def encodePsonValue (value : Json) (w : W) : W := (Pson.encode value w).2

/-- the body of `encode`'s loop -/
def encodeEntry (field : UInt8) (value : Json) (w : W) : W :=
  match value with
  | .numberUnsigned v => pbWriteVarint v (encodeField .varint field w)
  | .numberInteger v => pbWriteVarint (if 0 ≤ v then v.toUInt64 else 0) (encodeField .varint field w)
  | value => encodePsonValue value (encodeField .psonV2 field w)

def encode (fields : List (UInt8 × Json)) (w : W) : W := fields.foldl (fun w entry => encodeEntry entry.1 entry.2 w) w

end Encoder

/-- `encode_message`: type, body size and body; the size comes from a first pass over a `null_writer` -/
def encodeMessage (type : MessageType) (fields : List (UInt8 × Json)) : Bytes :=
  let bodySize := (encode fields (⟨0⟩ : NullWriter)).written
  let output : StringWriter := pbWriteVarint type.code.toUInt64 ⟨[], 0⟩
  (encode fields (pbWriteVarint (UInt64.ofNat bodySize) output)).string

/-! ## iotmp_decoder -/

/-- `pb_decode_varint`, whose accumulator has 32 bits -/
def pbDecodeVarint (r : MemoryReader) : Option (ℕ × MemoryReader) := Pson.pbDecodeVarint 32 r

def decodeField (r : MemoryReader) : Option ((WireType × ℕ) × MemoryReader) :=
  match pbDecodeVarint r with
  | none => none
  | some (temp, r) => some ((WireType.ofCode (temp &&& 0x07), temp >>> 3), r)

/-- the `while(size - (bytes_read() - start_read) > 0)` of `decode`; the difference is unsigned, so it is positive
whenever it is not zero -/
def decodeLoop (size startRead : ℕ) : ℕ → IotmpMessage → MemoryReader → Pson.Decoded IotmpMessage
  | 0, message, r => (false, message, r)
  | fuel + 1, message, r =>
    if size = r.bytesRead - startRead then (true, message, r)
    else
      match decodeField r with
      | none => (false, message, r)
      | some ((.varint, fieldNumber), r) =>
        match pbDecodeVarint r with
        | none => (false, message, r)
        | some (value, r) =>
          -- `message[field_number]` takes a `uint8_t`
          decodeLoop size startRead fuel
            (message.setField (UInt8.ofNat fieldNumber) (.numberUnsigned (UInt64.ofNat value))) r
      | some ((.psonV2, fieldNumber), r) =>
        -- the field exists, null or as an earlier one left it, before it is decoded into
        let (ok, value, r) := Pson.decode r (message.get (UInt8.ofNat fieldNumber))
        let message := message.setField (UInt8.ofNat fieldNumber) value
        if ok then decodeLoop size startRead fuel message r else (false, message, r)
      | some (_, r) => (false, message, r)

def decode (message : IotmpMessage) (size : ℕ) (r : MemoryReader) : Pson.Decoded IotmpMessage :=
  decodeLoop size r.bytesRead (r.rest.length + 1) message r

/-- what `read_message` runs: the decoder on a body, into an empty message -/
def decodeBody (type : MessageType) (bs : Bytes) : Pson.Decoded IotmpMessage :=
  decode { messageType := type } bs.length (MemoryReader.ofBuffer bs)

/-! ## The decoder's rounds -/

theorem decodeField_lt {r r' : MemoryReader} {t : WireType × ℕ} (h : decodeField r = some (t, r')) :
    r.Reads r' ∧ r'.rest.length < r.rest.length := by
  unfold decodeField pbDecodeVarint at h
  cases hv : Pson.pbDecodeVarint 32 r with
  | none => simp [hv] at h
  | some p =>
    obtain ⟨temp, r1⟩ := p
    simp only [hv, Option.some.injEq, Prod.mk.injEq] at h
    exact h.2 ▸ ⟨Pson.pbDecodeVarint_reads hv, Pson.pbDecodeVarint_lt hv⟩

/-- **Fuel is no bound.** Every fuel above the number of unread bytes gives the same result. -/
theorem decodeLoop_eq (size startRead f g : ℕ) (message : IotmpMessage) (r : MemoryReader) (hf : r.rest.length < f)
    (hg : r.rest.length < g) : decodeLoop size startRead f message r = decodeLoop size startRead g message r := by
  induction f generalizing g message r with
  | zero => exact absurd hf (Nat.not_lt_zero _)
  | succ f ih =>
    obtain ⟨g, rfl⟩ : ∃ k, g = k + 1 := ⟨g - 1, by omega⟩
    simp only [decodeLoop]
    split_ifs
    · rfl
    · rcases ht : decodeField r with _ | ⟨⟨wireType, fieldNumber⟩, r1⟩
      · rfl
      · have h1 := (decodeField_lt ht).2
        cases wireType with
        | varint =>
          rcases hv : pbDecodeVarint r1 with _ | ⟨value, r2⟩
          · simp only [hv]
          · have h2 := Pson.pbDecodeVarint_lt hv
            simp only [hv]
            exact ih g _ r2 (by omega) (by omega)
        | psonV2 =>
          have h2 := (Pson.decode_reads r1 (message.get (UInt8.ofNat fieldNumber))).length_le
          rcases hd : Pson.decode r1 (message.get (UInt8.ofNat fieldNumber)) with ⟨_ | _, value, r2⟩
          · simp only [hd]; rfl
          · rw [hd] at h2
            simp only [hd, if_true]
            exact ih g _ r2 (by simp only at h2; omega) (by simp only at h2; omega)
        | psonV1 => rfl
        | unknown code => rfl

end Codec

end Iotmp
