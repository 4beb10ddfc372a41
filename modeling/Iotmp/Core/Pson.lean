/-
PSON v2 (`pson_encoder.hpp`, `pson_decoder.hpp`): the binary form of a JSON value.

A value starts with a tag byte, three bits of wire type and five of payload. A payload of `0x1f` says that the real one
follows as a varint. Strings, keys and binaries follow as raw bytes, the elements of an array and the pairs of a map one
after the other.

The encoder is generic in its writer. The decoder takes the value it decodes into, since a failing decode leaves that
value partly written: the tag of an array or a map resets it, and the elements read before the failure stay. `fuel`
bounds the nesting. A nested value starts at least one byte later, so the length of the input is enough
(`decodeFuel_eq` in `PsonRoundTrip`).
-/
import Mathlib.Tactic
import Iotmp.Core.Adapters

namespace Iotmp

inductive PsonWireType where
  | unsignedT
  | signedT
  | floatingT
  | discreteT
  | stringT
  | bytesT
  | mapT
  | arrayT
deriving DecidableEq, Repr

namespace PsonWireType

def code : PsonWireType → UInt8
  | unsignedT => 0
  | signedT => 1
  | floatingT => 2
  | discreteT => 3
  | stringT => 4
  | bytesT => 5
  | mapT => 6
  | arrayT => 7

/-- `static_cast<pson_wire_type>(byte >> 5)` -/
def ofCode (c : UInt8) : PsonWireType :=
  if c = 0 then unsignedT
  else if c = 1 then signedT
  else if c = 2 then floatingT
  else if c = 3 then discreteT
  else if c = 4 then stringT
  else if c = 5 then bytesT
  else if c = 6 then mapT
  else arrayT

end PsonWireType

namespace Pson

/-! ## pson_encoder -/

section Encoder

variable {W : Type} [Writer W]

def pbEncodeTagFixed (wireType : PsonWireType) (value : UInt8) : Put W := put [(wireType.code <<< 5) ||| value]

/-- the `do … while(value > 0)` of `pb_write_varint`; ten rounds cover 64 bits -/
def pbWriteVarintLoop : ℕ → UInt64 → Put W
  | 0, _ => Put.done
  | rounds + 1, value =>
    let byte := (value &&& 0x7F).toUInt8
    let value := value >>> 7
    if 0 < value then (put [byte ||| 0x80]).andThen (pbWriteVarintLoop rounds value) else put [byte]

def pbWriteVarint (value : UInt64) : Put W := pbWriteVarintLoop 10 value

def pbEncodeTag (wireType : PsonWireType) (value : UInt64) : Put W :=
  if value < 0x1f then pbEncodeTagFixed wireType value.toUInt8
  else (pbEncodeTagFixed wireType 0x1f).andThen (pbWriteVarint value)

/-- what a C string holds of a byte string: `strlen` stops at the first NUL -/
def cStr (s : Bytes) : Bytes := s.takeWhile fun b => b ≠ 0

/-- `pb_encode_string(s.c_str())` -/
def pbEncodeString (s : Bytes) : Put W :=
  (pbEncodeTag .stringT (UInt64.ofNat (cStr s).length)).andThen (put (cStr s))

def pbEncodeBytes (data : Bytes) : Put W := (pbEncodeTag .bytesT (UInt64.ofNat data.length)).andThen (put data)

/-- the bytes of a `count`-byte number in memory order (little endian) -/
def leBytes : ℕ → ℕ → Bytes
  | 0, _ => []
  | count + 1, n => UInt8.ofNat (n % 256) :: leBytes count (n / 256)

def pbEncodeFloat (value : UInt32) : Put W := (pbEncodeTagFixed .floatingT 0).andThen (put (leBytes 4 value.toNat))

def pbEncodeDouble (value : UInt64) : Put W := (pbEncodeTagFixed .floatingT 1).andThen (put (leBytes 8 value.toNat))

/-- `-v` of a negative `int64_t`, as the `uint64_t` parameter receives it -/
def pbEncodeInteger (v : Int64) : Put W :=
  if v < 0 then pbEncodeTag .signedT (-v).toUInt64 else pbEncodeTag .unsignedT v.toUInt64

mutual

def encode : Json → Put W
  | .boolean b => pbEncodeTagFixed .discreteT (if b then 1 else 0)
  | .null => pbEncodeTagFixed .discreteT 2
  | .numberInteger v => pbEncodeInteger v
  | .numberUnsigned v => pbEncodeTag .unsignedT v
  | .numberFloat bits =>
    match Json.asInt64 bits with
    | some v => pbEncodeInteger v
    | none =>
      match Json.asFloat bits with
      | some f => pbEncodeFloat f
      | none => pbEncodeDouble bits
  | .string s => pbEncodeString s
  | .array es => (pbEncodeTag .arrayT (UInt64.ofNat es.length)).andThen (encodeElements es)
  | .object ms => (pbEncodeTag .mapT (UInt64.ofNat ms.length)).andThen (encodeMembers ms)
  | .binary data _ => pbEncodeBytes data
  | .discarded => Put.fail

/-- the loop of `encode_array` -/
def encodeElements : List Json → Put W
  | [] => Put.done
  | e :: es => (encode e).andThen (encodeElements es)

/-- the loop of `encode_object` -/
def encodeMembers : List (Bytes × Json) → Put W
  | [] => Put.done
  | (key, value) :: ms => (pbEncodeString key).andThen ((encode value).andThen (encodeMembers ms))

end

end Encoder

/-! ## pson_decoder -/

/-- the loop of `pb_decode_varint32` and `pb_decode_varint64`, on a `width`-bit accumulator; a code of more than
`width / 7 + 1` bytes is refused, so the rounds never run out -/
def pbDecodeVarintLoop (width : ℕ) : ℕ → ℕ → ℕ → MemoryReader → Option (ℕ × MemoryReader)
  | 0, _, _, _ => none
  | rounds + 1, bitPos, varint, r =>
    match r.readByte with
    | none => none
    | some (byte, r) =>
      if width ≤ bitPos then none
      else
        let varint := varint ||| ((byte &&& 0x7F).toNat <<< bitPos) % 2 ^ width
        if 0x80 ≤ byte then pbDecodeVarintLoop width rounds (bitPos + 7) varint r else some (varint, r)

def pbDecodeVarint (width : ℕ) (r : MemoryReader) : Option (ℕ × MemoryReader) :=
  pbDecodeVarintLoop width (width + 1) 0 0 r

def pbDecodeVarint32 (r : MemoryReader) : Option (ℕ × MemoryReader) := pbDecodeVarint 32 r

def pbDecodeVarint64 (r : MemoryReader) : Option (ℕ × MemoryReader) := pbDecodeVarint 64 r

def pbDecodeTag (r : MemoryReader) : Option ((PsonWireType × ℕ) × MemoryReader) :=
  match r.readByte with
  | none => none
  | some (byte, r) =>
    let wireType := PsonWireType.ofCode (byte >>> 5)
    let value := (byte &&& 0x1f).toNat
    if value = 0x1f then
      match pbDecodeVarint64 r with
      | none => none
      | some (value, r) => some ((wireType, value), r)
    else some ((wireType, value), r)

/-- the number a little-endian byte string stands for -/
def ofLeBytes : Bytes → ℕ
  | [] => 0
  | b :: bs => b.toNat + 256 * ofLeBytes bs

/-- what a decode returns, the value it leaves behind and the reader after it; after a failure nobody reads on -/
abbrev Decoded (α : Type) := Bool × α × MemoryReader

section Loops

-- `decode` of the nested values
variable (decode : MemoryReader → Json → Decoded Json)

/-- a length-prefixed run of bytes: a string, a key or a binary -/
def readSized (size : ℕ) (r : MemoryReader) : Option (Bytes × MemoryReader) :=
  if Json.UINT32_MAX < size then none else r.read size

def decodePair (object : List (Bytes × Json)) (r : MemoryReader) : Decoded (List (Bytes × Json)) :=
  match pbDecodeTag r with
  | some ((.stringT, keySize), r') =>
    match readSized keySize r' with
    | none => (false, object, r')
    | some (key, r') =>
      -- `decode(object[key])`: the member is there, null or as an earlier pair left it, before it is decoded into
      let (ok, value, r') := decode r' ((SortedMap.find key object).getD .null)
      (ok, SortedMap.insert key value object, r')
  | some (_, r') => (false, object, r')
  | none => (false, object, r)

def decodeObject : ℕ → List (Bytes × Json) → MemoryReader → Decoded (List (Bytes × Json))
  | 0, object, r => (true, object, r)
  | size + 1, object, r =>
    match decodePair decode object r with
    | (false, object, r) => (false, object, r)
    | (true, object, r) => decodeObject size object r

def decodeArray : ℕ → List Json → MemoryReader → Decoded (List Json)
  | 0, array, r => (true, array, r)
  | size + 1, array, r =>
    match decode r .null with
    | (false, _, r) => (false, array, r)
    | (true, value, r) => decodeArray size (array ++ [value]) r

end Loops

/-- a value of exactly `size` raw bytes, or a failure that leaves the old value -/
def decodeRaw (size : ℕ) (ofBytes : Bytes → Json) (r : MemoryReader) (value : Json) : Decoded Json :=
  match r.read size with
  | none => (false, value, r)
  | some (bs, r) => (true, ofBytes bs, r)

def decodeFuel : ℕ → MemoryReader → Json → Decoded Json
  | 0, r, value => (false, value, r)
  | fuel + 1, r, value =>
    match pbDecodeTag r with
    | none => (false, value, r)
    | some ((.unsignedT, payload), r) => (true, .numberUnsigned (UInt64.ofNat payload), r)
    | some ((.signedT, payload), r) => (true, .numberInteger (-(UInt64.ofNat payload).toInt64), r)
    | some ((.floatingT, 0), r) =>
      decodeRaw 4 (fun bs => .numberFloat (Json.widen (UInt32.ofNat (ofLeBytes bs)))) r value
    | some ((.floatingT, 1), r) => decodeRaw 8 (fun bs => .numberFloat (UInt64.ofNat (ofLeBytes bs))) r value
    | some ((.floatingT, _), r) => (false, value, r)
    | some ((.discreteT, 0), r) => (true, .boolean false, r)
    | some ((.discreteT, 1), r) => (true, .boolean true, r)
    | some ((.discreteT, 2), r) => (true, .null, r)
    | some ((.discreteT, _), r) => (false, value, r)
    | some ((.stringT, size), r) =>
      match readSized size r with
      | none => (false, value, r)
      | some (s, r) => (true, .string s, r)
    | some ((.bytesT, size), r) =>
      match readSized size r with
      | none => (false, value, r)
      | some (data, r) => (true, .binary data none, r)
    | some ((.mapT, size), r) =>
      let (ok, ms, r) := decodeObject (decodeFuel fuel) size [] r
      (ok, .object ms, r)
    | some ((.arrayT, size), r) =>
      let (ok, es, r) := decodeArray (decodeFuel fuel) size [] r
      (ok, .array es, r)

def decode (r : MemoryReader) (value : Json) : Decoded Json := decodeFuel (r.rest.length + 1) r value

end Pson

end Iotmp
