/-
The bytes of PSON: varints, tags and whole values.

- `pbDecodeVarint_encode`, `pbDecodeVarint_encode_overlong`: a `width`-bit reader reads a written number back modulo
  `2 ^ width` if its code has at most `⌈width / 7⌉` bytes, and refuses it otherwise.
- `pbDecodeTag_tagBytes`: a tag is read back with its wire type and its payload.
- `bytes v`: the encoding of a value as a byte string. `encode_writes`: over every lawful writer, `encode v` writes
  exactly `bytes v`.
-/
import Mathlib.Tactic
import Iotmp.Core.Pson
import Iotmp.Lib.Leb128

namespace Iotmp.Pson

open Json

/-! ## Varints -/

theorem toNat_low7 (v : UInt64) : (v &&& 0x7F).toUInt8.toNat = v.toNat % 128 := by
  have h : v.toNat &&& 127 = v.toNat % 128 := Nat.and_two_pow_sub_one_eq_mod v.toNat 7
  calc (v &&& 0x7F).toUInt8.toNat = (v.toNat &&& 127) % 256 := by rw [UInt64.toNat_toUInt8, UInt64.toNat_and]; rfl
    _ = v.toNat % 128 := by rw [h]; omega

theorem toNat_shiftRight7 (v : UInt64) : (v >>> 7).toNat = v.toNat / 128 := by
  simp [UInt64.toNat_shiftRight, Nat.shiftRight_eq_div_pow]

theorem toNat_or_0x80 {b : UInt8} (h : b.toNat < 128) : (b ||| 0x80).toNat = b.toNat + 128 := by
  have : 128 ||| b.toNat = 128 + b.toNat := (Nat.two_pow_add_eq_or_of_lt (i := 7) h 1).symm
  rw [UInt8.toNat_or, Nat.or_comm, Nat.add_comm]
  exact this

theorem toNat_and_0x7F (b : UInt8) : (b &&& 0x7F).toNat = b.toNat % 128 := by
  have h : b.toNat &&& 127 = b.toNat % 128 := Nat.and_two_pow_sub_one_eq_mod b.toNat 7
  simpa using h

/-- the last round of a writer's loop -/
theorem varint_last {v : UInt64} (h : v.toNat < 128) :
    ¬ (0 : UInt64) < v >>> 7 ∧ (v &&& 0x7F).toUInt8 = UInt8.ofNat v.toNat := by
  constructor
  · rw [UInt64.lt_iff_toNat_lt, toNat_shiftRight7, Nat.div_eq_of_lt h]
    exact lt_irrefl 0
  · apply UInt8.toNat_inj.1
    rw [toNat_low7, Leb128.toNat_ofNat (by omega), Nat.mod_eq_of_lt h]

/-- any other round -/
theorem varint_more {v : UInt64} (h : 128 ≤ v.toNat) :
    (0 : UInt64) < v >>> 7 ∧ (v &&& 0x7F).toUInt8 ||| 0x80 = UInt8.ofNat (v.toNat % 128 + 128) := by
  constructor
  · rw [UInt64.lt_iff_toNat_lt, toNat_shiftRight7]
    exact Nat.div_pos h (by norm_num)
  · have hlow : (v &&& 0x7F).toUInt8.toNat < 128 := by rw [toNat_low7]; exact Nat.mod_lt _ (by norm_num)
    apply UInt8.toNat_inj.1
    rw [toNat_or_0x80 hlow, toNat_low7, Leb128.toNat_ofNat (by omega)]

/-- the rounds that are left after it -/
theorem varint_rounds {v : UInt64} {n : ℕ} (h : 128 ≤ v.toNat) (hv : v.toNat < 128 ^ (n + 1)) :
    0 < n ∧ (v >>> 7).toNat < 128 ^ n := by
  constructor
  · rcases Nat.eq_zero_or_pos n with rfl | hn
    · simp only [zero_add, pow_one] at hv; omega
    · exact hn
  · rw [toNat_shiftRight7]
    exact Nat.div_lt_of_lt_mul (by rw [← pow_succ']; exact hv)

theorem pbWriteVarintLoop_writes {W : Type} [Writer W] [LawfulWriter W] (rounds : ℕ) (hr : 0 < rounds) (v : UInt64)
    (hv : v.toNat < 128 ^ rounds) : Writes (pbWriteVarintLoop (W := W) rounds v) (Leb128.encode v.toNat) := by
  induction rounds generalizing v with
  | zero => exact absurd hr (lt_irrefl 0)
  | succ n ih =>
    simp only [pbWriteVarintLoop]
    rcases lt_or_ge v.toNat 128 with h | h
    · rw [if_neg (varint_last h).1, Leb128.encode_of_lt h, (varint_last h).2]
      exact writes_put _
    · obtain ⟨hn, hv'⟩ := varint_rounds h hv
      rw [if_pos (varint_more h).1, (varint_more h).2, Leb128.encode_of_ge h, ← toNat_shiftRight7]
      exact (writes_put (W := W) [UInt8.ofNat (v.toNat % 128 + 128)]).andThen (ih hn (v >>> 7) hv')

theorem pbWriteVarint_writes {W : Type} [Writer W] [LawfulWriter W] (v : UInt64) :
    Writes (pbWriteVarint (W := W) v) (Leb128.encode v.toNat) :=
  pbWriteVarintLoop_writes 10 (by norm_num) v (lt_trans v.toNat_lt (by norm_num))

/-- one round of the reader's loop -/
theorem pbDecodeVarintLoop_cons (width rounds bitPos varint : ℕ) (b : UInt8) (bs : Bytes) (n : ℕ) (hw : bitPos < width)
    (hv : varint < 2 ^ bitPos) :
    pbDecodeVarintLoop width (rounds + 1) bitPos varint ⟨b :: bs, n⟩ =
      if 128 ≤ b.toNat then
        pbDecodeVarintLoop width rounds (bitPos + 7) ((varint + 2 ^ bitPos * (b.toNat % 128)) % 2 ^ width) ⟨bs, n + 1⟩
      else some ((varint + 2 ^ bitPos * (b.toNat % 128)) % 2 ^ width, ⟨bs, n + 1⟩) := by
  simp only [pbDecodeVarintLoop, MemoryReader.readByte_cons, not_le.2 hw, ite_false, toNat_and_0x7F]
  rw [Leb128.or_chunk _ hw.le hv]
  rfl

/-- the accumulator stays below the bit it has reached -/
theorem chunk_lt {bitPos varint : ℕ} (width : ℕ) (b : UInt8) (hv : varint < 2 ^ bitPos) :
    (varint + 2 ^ bitPos * (b.toNat % 128)) % 2 ^ width < 2 ^ (bitPos + 7) := by
  have hb : b.toNat % 128 + 1 ≤ 128 := Nat.mod_lt _ (by norm_num)
  calc (varint + 2 ^ bitPos * (b.toNat % 128)) % 2 ^ width
      ≤ varint + 2 ^ bitPos * (b.toNat % 128) := Nat.mod_le _ _
    _ < 2 ^ bitPos + 2 ^ bitPos * (b.toNat % 128) := by omega
    _ = 2 ^ bitPos * (b.toNat % 128 + 1) := by ring
    _ ≤ 2 ^ bitPos * 128 := Nat.mul_le_mul_left _ hb
    _ = 2 ^ (bitPos + 7) := by rw [pow_add]; norm_num

/-- a code whose last byte starts below `width` is read whole; its value is truncated to `width` bits -/
theorem pbDecodeVarintLoop_code (width rounds bitPos varint : ℕ) (bs tl : Bytes) (n : ℕ) (hc : Leb128.Code bs)
    (hv : varint < 2 ^ bitPos) (hw : bitPos + 7 * (bs.length - 1) < width) (hr : bs.length ≤ rounds) :
    pbDecodeVarintLoop width rounds bitPos varint ⟨bs ++ tl, n⟩ =
      some ((varint + 2 ^ bitPos * Leb128.value bs) % 2 ^ width, ⟨tl, n + bs.length⟩) := by
  induction bs generalizing rounds bitPos varint n with
  | nil => exact absurd hc id
  | cons b bs ih =>
    obtain ⟨rounds, rfl⟩ : ∃ k, rounds = k + 1 := ⟨rounds - 1, by simp at hr; omega⟩
    have hbit : bitPos < width := by omega
    rw [List.cons_append, pbDecodeVarintLoop_cons _ _ _ _ _ _ _ hbit hv]
    cases bs with
    | nil =>
      have hb : b.toNat < 128 := hc
      rw [if_neg (by omega)]
      simp [Leb128.value]
    | cons c cs =>
      obtain ⟨hb, hc'⟩ : 128 ≤ b.toNat ∧ Leb128.Code (c :: cs) := hc
      rw [if_pos hb, ih _ _ _ _ hc' (chunk_lt width b hv) (by simp at hw ⊢; omega) (by simpa using hr),
        Leb128.value_cons_step bitPos varint b, Nat.mod_add_mod]
      simp [Nat.add_assoc, Nat.add_comm]

/-- a code that goes on past `width` is refused -/
theorem pbDecodeVarintLoop_overlong (width rounds bitPos varint : ℕ) (bs tl : Bytes) (n : ℕ) (hc : Leb128.Code bs)
    (hv : varint < 2 ^ bitPos) (hw : width ≤ bitPos + 7 * (bs.length - 1)) :
    pbDecodeVarintLoop width rounds bitPos varint ⟨bs ++ tl, n⟩ = none := by
  induction bs generalizing rounds bitPos varint n with
  | nil => exact absurd hc id
  | cons b bs ih =>
    cases rounds with
    | zero => rfl
    | succ rounds =>
      rcases le_or_gt width bitPos with hbit | hbit
      · simp [pbDecodeVarintLoop, hbit]
      · rw [List.cons_append, pbDecodeVarintLoop_cons _ _ _ _ _ _ _ hbit hv]
        cases bs with
        | nil => simp at hw; omega
        | cons c cs =>
          obtain ⟨hb, hc'⟩ : 128 ≤ b.toNat ∧ Leb128.Code (c :: cs) := hc
          rw [if_pos hb]
          exact ih _ _ _ _ hc' (chunk_lt width b hv) (by simp at hw ⊢; omega)

/-- a written number of at most `width / 7 + 1` bytes is read back modulo `2 ^ width` -/
theorem pbDecodeVarint_encode (width k : ℕ) (v : ℕ) (tl : Bytes) (n : ℕ) (hk : 7 * k < width) (hv : v < 128 ^ (k + 1)) :
    pbDecodeVarint width ⟨Leb128.encode v ++ tl, n⟩ =
      some (v % 2 ^ width, ⟨tl, n + (Leb128.encode v).length⟩) := by
  have hlen : (Leb128.encode v).length ≤ k + 1 := Leb128.length_encode_le (Nat.succ_pos k) hv
  rw [pbDecodeVarint, pbDecodeVarintLoop_code width _ 0 0 _ _ _ (Leb128.encode_code v) (by norm_num) (by omega)
    (by omega), Leb128.value_encode]
  simp

/-- a longer one is refused -/
theorem pbDecodeVarint_encode_overlong (width k : ℕ) (v : ℕ) (tl : Bytes) (n : ℕ) (hk : width ≤ 7 * (k + 1))
    (hv : 128 ^ (k + 1) ≤ v) : pbDecodeVarint width ⟨Leb128.encode v ++ tl, n⟩ = none := by
  have hlen : ¬ (Leb128.encode v).length ≤ k + 1 :=
    fun h => absurd ((Leb128.length_encode_le_iff (Nat.succ_pos k)).1 h) (not_lt.2 hv)
  exact pbDecodeVarintLoop_overlong width _ 0 0 _ _ _ (Leb128.encode_code v) (by norm_num) (by omega)

/-! ## Tags -/

def tagByte (wireType : PsonWireType) (value : UInt8) : UInt8 := (wireType.code <<< 5) ||| value

theorem tagByte_fields (wireType : PsonWireType) (value : UInt8) (h : value.toNat < 32) :
    PsonWireType.ofCode (tagByte wireType value >>> 5) = wireType ∧ tagByte wireType value &&& 0x1f = value := by
  have key : ∀ v : Fin 32, PsonWireType.ofCode (tagByte wireType (UInt8.ofNat v) >>> 5) = wireType ∧
      tagByte wireType (UInt8.ofNat v) &&& 0x1f = UInt8.ofNat v := by
    cases wireType <;> decide
  simpa using key ⟨value.toNat, h⟩

/-- the bytes of a tag with its payload -/
def tagBytes (wireType : PsonWireType) (value : UInt64) : Bytes :=
  if value < 0x1f then [tagByte wireType value.toUInt8] else tagByte wireType 0x1f :: Leb128.encode value.toNat

theorem pbEncodeTag_writes {W : Type} [Writer W] [LawfulWriter W] (wireType : PsonWireType) (value : UInt64) :
    Writes (pbEncodeTag (W := W) wireType value) (tagBytes wireType value) := by
  unfold pbEncodeTag tagBytes
  split_ifs
  · exact writes_put _
  · exact (writes_put (W := W) [tagByte wireType 0x1f]).andThen (pbWriteVarint_writes value)

theorem length_tagBytes_pos (wireType : PsonWireType) (value : UInt64) : 0 < (tagBytes wireType value).length := by
  unfold tagBytes; split_ifs <;> simp

theorem pbDecodeTag_tagBytes (wireType : PsonWireType) (value : UInt64) (tl : Bytes) (n : ℕ) :
    pbDecodeTag ⟨tagBytes wireType value ++ tl, n⟩ =
      some ((wireType, value.toNat), ⟨tl, n + (tagBytes wireType value).length⟩) := by
  unfold tagBytes
  split_ifs with h
  · have hlt : value.toNat < 31 := UInt64.lt_iff_toNat_lt.1 h
    have hv : value.toUInt8.toNat = value.toNat := by rw [UInt64.toNat_toUInt8]; omega
    obtain ⟨h1, h2⟩ := tagByte_fields wireType value.toUInt8 (by omega)
    simp only [List.cons_append, List.nil_append, pbDecodeTag, MemoryReader.readByte_cons, h1, h2, hv]
    rw [if_neg (by omega)]
    rfl
  · obtain ⟨h1, h2⟩ := tagByte_fields wireType 0x1f (by decide)
    have hread := pbDecodeVarint_encode 64 9 value.toNat tl (n + 1) (by norm_num)
      (lt_trans value.toNat_lt (by norm_num))
    rw [Nat.mod_eq_of_lt value.toNat_lt] at hread
    simp only [List.cons_append, pbDecodeTag, MemoryReader.readByte_cons, h1, h2, pbDecodeVarint64, hread,
      List.length_cons]
    rw [if_pos (by rfl), Nat.add_assoc, Nat.add_comm 1]

/-! ## The encoding as a byte string -/

def integerBytes (v : Int64) : Bytes :=
  if v < 0 then tagBytes .signedT (-v).toUInt64 else tagBytes .unsignedT v.toUInt64

def stringBytes (s : Bytes) : Bytes := tagBytes .stringT (UInt64.ofNat (cStr s).length) ++ cStr s

mutual

def bytes : Json → Bytes
  | .boolean b => [tagByte .discreteT (if b then 1 else 0)]
  | .null => [tagByte .discreteT 2]
  | .numberInteger v => integerBytes v
  | .numberUnsigned v => tagBytes .unsignedT v
  | .numberFloat bits =>
    match asInt64 bits with
    | some v => integerBytes v
    | none =>
      match asFloat bits with
      | some f => tagByte .floatingT 0 :: leBytes 4 f.toNat
      | none => tagByte .floatingT 1 :: leBytes 8 bits.toNat
  | .string s => stringBytes s
  | .array es => tagBytes .arrayT (UInt64.ofNat es.length) ++ bytesElements es
  | .object ms => tagBytes .mapT (UInt64.ofNat ms.length) ++ bytesMembers ms
  | .binary data _ => tagBytes .bytesT (UInt64.ofNat data.length) ++ data
  | .discarded => []

def bytesElements : List Json → Bytes
  | [] => []
  | e :: es => bytes e ++ bytesElements es

def bytesMembers : List (Bytes × Json) → Bytes
  | [] => []
  | (key, value) :: ms => stringBytes key ++ (bytes value ++ bytesMembers ms)

end

def presentNode : Json → Bool
  | .discarded => false
  | _ => true

/-- no node is `discarded`, the one type the encoder refuses -/
def Present (v : Json) : Prop := v.every presentNode = true

section

variable {W : Type} [Writer W] [LawfulWriter W]

theorem pbEncodeInteger_writes (v : Int64) : Writes (pbEncodeInteger (W := W) v) (integerBytes v) := by
  unfold pbEncodeInteger integerBytes
  split_ifs <;> exact pbEncodeTag_writes _ _

theorem pbEncodeString_writes (s : Bytes) : Writes (pbEncodeString (W := W) s) (stringBytes s) :=
  (pbEncodeTag_writes _ _).andThen (writes_put _)

theorem encodeElements_writes (es : List Json) (h : ∀ e ∈ es, Writes (encode (W := W) e) (bytes e)) :
    Writes (encodeElements (W := W) es) (bytesElements es) := by
  induction es with
  | nil => exact writes_done
  | cons e es ih =>
    obtain ⟨he, hes⟩ := List.forall_mem_cons.1 h
    exact he.andThen (ih hes)

theorem encodeMembers_writes (ms : List (Bytes × Json)) (h : ∀ m ∈ ms, Writes (encode (W := W) m.2) (bytes m.2)) :
    Writes (encodeMembers (W := W) ms) (bytesMembers ms) := by
  induction ms with
  | nil => exact writes_done
  | cons m ms ih =>
    obtain ⟨hm, hms⟩ := List.forall_mem_cons.1 h
    exact (pbEncodeString_writes m.1).andThen (hm.andThen (ih hms))

/-- **The encoder writes `bytes v`**, over every lawful writer. -/
theorem encode_writes (v : Json) (hv : Present v) : Writes (encode (W := W) v) (bytes v) := by
  induction v using Json.ind with
  | null => exact writes_put _
  | boolean b => exact writes_put _
  | numberInteger v => exact pbEncodeInteger_writes v
  | numberUnsigned v => exact pbEncodeTag_writes _ _
  | numberFloat bits =>
    cases hi : asInt64 bits with
    | some v => simpa only [encode, bytes, hi] using pbEncodeInteger_writes v
    | none =>
      cases hf : asFloat bits with
      | some f =>
        simp only [encode, bytes, hi, hf]
        exact (writes_put (W := W) [tagByte .floatingT 0]).andThen (writes_put (leBytes 4 f.toNat))
      | none =>
        simp only [encode, bytes, hi, hf]
        exact (writes_put (W := W) [tagByte .floatingT 1]).andThen (writes_put (leBytes 8 bits.toNat))
  | string s => exact pbEncodeString_writes s
  | binary data subtype => exact (pbEncodeTag_writes _ _).andThen (writes_put _)
  | array es ih =>
    obtain ⟨-, hes⟩ := (every_array _ _).1 hv
    exact (pbEncodeTag_writes _ _).andThen (encodeElements_writes es fun e he => ih e he (hes e he))
  | object ms ih =>
    obtain ⟨-, hms⟩ := (every_object _ _).1 hv
    exact (pbEncodeTag_writes _ _).andThen (encodeMembers_writes ms fun m hm => ih m hm (hms m hm))
  | discarded => exact absurd hv Bool.false_ne_true

end

end Iotmp.Pson
