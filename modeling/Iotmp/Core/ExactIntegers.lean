/-
Integers of the wire formats (`pson_decoder.hpp`: `pb_decode_varint32`, `pb_decode_varint64`, `decode`;
`iotmp_decoder.hpp`: `pb_decode_varint`).

The loops stop a varint that goes on past the last byte that still begins inside the accumulator, but keep only the low
bits of that byte. A `signed_t` item is negated in 64 bits.

- `varint_exact_iff`: a varint is the sum of its bytes exactly if no code the loop admits is too large.
- `item_exact_iff`: an integer item is its magnitude, with its sign, exactly if no admitted code is `2 ^ 64` or more, or
  for a negative one above `2 ^ 63`.
- `integers_exact_iff`: the three loops and the items.
Counterexample: `integers_reduced`.
-/
import Mathlib.Tactic
import Iotmp.Core.WireFields

namespace Iotmp

open MemoryReader (ofBuffer)

/-! ## Varints -/

/-- the sum `Σ (bᵢ mod 128) · 128ⁱ` over the bytes read between two readers -/
def numberRead (r r' : MemoryReader) : ℕ := Leb128.value (r.rest.take (r'.bytesRead - r.bytesRead))

/-- **Exact or rejected**: what the decoder accepts is the sum of the bytes it read. -/
def VarintExact (decodeVarint : MemoryReader → Option (ℕ × MemoryReader)) (r : MemoryReader) : Prop :=
  ∀ v r', decodeVarint r = some (v, r') → v = numberRead r r'

/-- a varint of at most `size` bytes at the front has a value below `bound` -/
def Fits (size bound : ℕ) (bs : Bytes) : Prop :=
  ∀ code, Leb128.Code code → code <+: bs → code.length ≤ size → Leb128.value code < bound

theorem readCode_some {bs : Bytes} {n w : ℕ} {r : MemoryReader} (h : readCode bs n = some (w, r)) :
    ∃ code, Leb128.Code code ∧ bs = code ++ r.rest ∧ r.bytesRead = n + code.length ∧ w = Leb128.value code := by
  induction bs generalizing n w with
  | nil => exact absurd h (by simp [readCode])
  | cons b bs ih =>
    rw [readCode] at h
    split_ifs at h with hmore
    · obtain ⟨⟨w', r'⟩, hw', heq⟩ := Option.map_eq_some_iff.1 h
      obtain ⟨rfl, rfl⟩ := Prod.mk.inj heq
      obtain ⟨code, hcode, hbs, hcount, hvalue⟩ := ih hw'
      refine ⟨b :: code, hcode.cons hmore, by rw [hbs]; rfl, ?_, by rw [Leb128.value, hvalue]⟩
      rw [hcount, List.length_cons]
      omega
    · obtain ⟨rfl, rfl⟩ := Prod.mk.inj (Option.some.inj h)
      exact ⟨[b], not_le.1 hmore, rfl, rfl, by simp [Leb128.value]⟩

namespace Pson

/-- a code that begins inside the accumulator to its last byte is accepted -/
theorem pbDecodeVarint_code {width : ℕ} {code : Bytes} (hcode : Leb128.Code code)
    (hwidth : 7 * (code.length - 1) < width) (tail : Bytes) (n : ℕ) :
    pbDecodeVarint width ⟨code ++ tail, n⟩ = some (Leb128.value code % 2 ^ width, ⟨tail, n + code.length⟩) := by
  rw [pbDecodeVarint, pbDecodeVarintLoop_code width _ 0 0 code tail n hcode (by norm_num) (by omega) (by omega)]
  simp

/-- only such codes are -/
theorem code_of_pbDecodeVarint {width v : ℕ} {r r' : MemoryReader} (h : pbDecodeVarint width r = some (v, r')) :
    ∃ code, Leb128.Code code ∧ r.rest = code ++ r'.rest ∧ r'.bytesRead = r.bytesRead + code.length ∧
      7 * (code.length - 1) < width ∧ v = Leb128.value code % 2 ^ width := by
  obtain ⟨w, hread, rfl⟩ := pbDecodeVarint_readCode h
  obtain ⟨code, hcode, hrest, hcount, rfl⟩ := readCode_some hread
  refine ⟨code, hcode, hrest, hcount, ?_, rfl⟩
  by_contra hlong
  obtain ⟨bs, n⟩ := r
  obtain rfl : bs = code ++ r'.rest := hrest
  have hnone := pbDecodeVarintLoop_overlong width (width + 1) 0 0 code r'.rest n hcode (by norm_num) (by omega)
  exact absurd (h.symm.trans hnone) (by simp)

/-- **A varint is the sum of its bytes** exactly if no code the loop admits is too large. -/
theorem varint_exact_iff (width : ℕ) (hwidth : 0 < width) (r : MemoryReader) :
    VarintExact (pbDecodeVarint width) r ↔ Fits ((width - 1) / 7 + 1) (2 ^ width) r.rest := by
  refine ⟨fun h code hcode hprefix hsize => ?_, fun h v r' hv => ?_⟩
  · obtain ⟨bs, n⟩ := r
    obtain ⟨tail, rfl⟩ := hprefix
    have hvalue := h _ _ (pbDecodeVarint_code hcode (by omega) tail n)
    rw [numberRead, Nat.add_sub_cancel_left, List.take_left' rfl] at hvalue
    calc Leb128.value code = Leb128.value code % 2 ^ width := hvalue.symm
      _ < 2 ^ width := Nat.mod_lt _ (by positivity)
  · obtain ⟨code, hcode, hrest, hcount, hlength, rfl⟩ := code_of_pbDecodeVarint hv
    rw [numberRead, hcount, Nat.add_sub_cancel_left, hrest, List.take_left' rfl]
    exact Nat.mod_eq_of_lt (h code hcode (hrest ▸ List.prefix_append _ _) (by omega))

/-! ## Integer items -/

/-- the number is this integer -/
def IsInteger : Json → ℤ → Prop
  | .numberUnsigned u, n => (u.toNat : ℤ) = n
  | .numberInteger i, n => i.toInt = n
  | _, _ => False

/-- **Exact or rejected**: an item with an integer tag that is accepted is its magnitude, with its sign. -/
def ItemExact (r : MemoryReader) : Prop :=
  ∀ tag rest, r.rest = tag :: rest → ∀ old v r', decode r old = (true, v, r') →
    (PsonWireType.ofCode (tag >>> 5) = .unsignedT → IsInteger v (psonPayload r)) ∧
      (PsonWireType.ofCode (tag >>> 5) = .signedT → IsInteger v (-(psonPayload r : ℤ)))

/-- a long magnitude of at most ten bytes is in range for its sign -/
def ItemFits (bs : Bytes) : Prop :=
  ∀ tag rest, bs = tag :: rest → (tag &&& 0x1f).toNat = 0x1f →
    (PsonWireType.ofCode (tag >>> 5) = .unsignedT → Fits 10 (2 ^ 64) rest) ∧
      (PsonWireType.ofCode (tag >>> 5) = .signedT → Fits 10 (2 ^ 63 + 1) rest)

theorem toNat_ofNat_lt {n : ℕ} (h : n < 2 ^ 64) : (UInt64.ofNat n).toNat = n := by
  rw [UInt64.toNat_ofNat', Nat.mod_eq_of_lt h]

/-- negation in 64 bits is exact up to `2 ^ 63`, where it wraps around to the least number -/
theorem toInt_neg_ofNat {n : ℕ} (h : n ≤ 2 ^ 63) : (-(UInt64.ofNat n).toInt64).toInt = -(n : ℤ) := by
  have hcast : (UInt64.ofNat n).toInt64 = Int64.ofNat n := by simp
  rw [Int64.toInt_neg, hcast, Int64.toInt_ofNat']
  simp only [Int.bmod_def, Int64.size]
  omega

/-- what a decode does behind an integer tag -/
theorem decode_integer {r r1 : MemoryReader} {wireType : PsonWireType} {payload : ℕ} (old : Json)
    (h : pbDecodeTag r = some ((wireType, payload), r1)) :
    (wireType = .unsignedT → decode r old = (true, .numberUnsigned (UInt64.ofNat payload), r1)) ∧
      (wireType = .signedT → decode r old = (true, .numberInteger (-(UInt64.ofNat payload).toInt64), r1)) := by
  refine ⟨?_, ?_⟩
  · rintro rfl
    rw [decode, decodeFuel, h]
  · rintro rfl
    rw [decode, decodeFuel, h]

/-- a magnitude in range is decoded exactly -/
theorem isInteger_of_tag {r r1 r' : MemoryReader} {old v : Json} {wireType : PsonWireType} {n : ℕ}
    (htag : pbDecodeTag r = some ((wireType, n % 2 ^ 64), r1)) (hv : decode r old = (true, v, r')) :
    (wireType = .unsignedT → n < 2 ^ 64 → IsInteger v n) ∧
      (wireType = .signedT → n ≤ 2 ^ 63 → IsInteger v (-(n : ℤ))) := by
  refine ⟨fun htype hn => ?_, fun htype hn => ?_⟩
  · rw [(decode_integer old htag).1 htype] at hv
    obtain rfl := (Prod.mk.inj (Prod.mk.inj hv).2).1
    rw [IsInteger, Nat.mod_eq_of_lt hn, toNat_ofNat_lt hn]
  · rw [(decode_integer old htag).2 htype] at hv
    obtain rfl := (Prod.mk.inj (Prod.mk.inj hv).2).1
    rw [IsInteger, Nat.mod_eq_of_lt (by omega), toInt_neg_ofNat hn]

/-- a magnitude that is decoded exactly is in range -/
theorem bound_of_isInteger (n : ℕ) :
    (IsInteger (.numberUnsigned (UInt64.ofNat (n % 2 ^ 64))) n → n < 2 ^ 64) ∧
      (IsInteger (.numberInteger (-(UInt64.ofNat (n % 2 ^ 64)).toInt64)) (-(n : ℤ)) → n < 2 ^ 63 + 1) := by
  refine ⟨fun h => ?_, fun h => ?_⟩
  · rw [IsInteger, toNat_ofNat_lt (Nat.mod_lt _ (by norm_num))] at h
    calc n = n % 2 ^ 64 := (Int.ofNat_inj.1 h).symm
      _ < 2 ^ 64 := Nat.mod_lt _ (by norm_num)
  · rw [IsInteger] at h
    have hle := (-(UInt64.ofNat (n % 2 ^ 64)).toInt64).le_toInt
    omega

/-- the tag with a short payload -/
theorem pbDecodeTag_short {tag : UInt8} (rest : Bytes) (n : ℕ) (h : (tag &&& 0x1f).toNat ≠ 0x1f) :
    pbDecodeTag ⟨tag :: rest, n⟩ = some ((PsonWireType.ofCode (tag >>> 5), (tag &&& 0x1f).toNat), ⟨rest, n + 1⟩) ∧
      psonPayload ⟨tag :: rest, n⟩ = (tag &&& 0x1f).toNat := by
  refine ⟨?_, ?_⟩
  · simp only [pbDecodeTag, MemoryReader.readByte_cons, if_neg h]
  · simp only [psonPayload, MemoryReader.readByte_cons, if_neg h]

/-- the tag with a payload behind it -/
theorem pbDecodeTag_long {tag : UInt8} {code : Bytes} (n : ℕ) (h : (tag &&& 0x1f).toNat = 0x1f)
    (hcode : Leb128.Code code) (hlength : code.length ≤ 10) (tail : Bytes) :
    pbDecodeTag ⟨tag :: (code ++ tail), n⟩ = some ((PsonWireType.ofCode (tag >>> 5), Leb128.value code % 2 ^ 64),
        ⟨tail, n + 1 + code.length⟩) ∧
      psonPayload ⟨tag :: (code ++ tail), n⟩ = Leb128.value code := by
  refine ⟨?_, ?_⟩
  · simp only [pbDecodeTag, MemoryReader.readByte_cons, if_pos h, pbDecodeVarint64]
    rw [pbDecodeVarint_code hcode (by omega)]
  · simp only [psonPayload, MemoryReader.readByte_cons, if_pos h, readCode_code code tail (n + 1) hcode]
    rfl

/-- a long payload that is accepted has a code of at most ten bytes -/
theorem code_of_pbDecodeTag {tag : UInt8} {rest : Bytes} {n : ℕ} {t : PsonWireType × ℕ} {r' : MemoryReader}
    (hlong : (tag &&& 0x1f).toNat = 0x1f) (h : pbDecodeTag ⟨tag :: rest, n⟩ = some (t, r')) :
    ∃ code tail, Leb128.Code code ∧ code.length ≤ 10 ∧ rest = code ++ tail := by
  simp only [pbDecodeTag, MemoryReader.readByte_cons, if_pos hlong] at h
  rcases hv : pbDecodeVarint64 ⟨rest, n + 1⟩ with _ | ⟨v, r2⟩
  · exact absurd h (by simp [hv])
  · obtain ⟨code, hcode, hrest, -, hlength, -⟩ := code_of_pbDecodeVarint hv
    exact ⟨code, r2.rest, hcode, by omega, hrest⟩

/-- **An integer item is its magnitude, with its sign**, exactly if no code it admits is too large. -/
theorem item_exact_iff (r : MemoryReader) : ItemExact r ↔ ItemFits r.rest := by
  obtain ⟨bs, n⟩ := r
  rcases bs with _ | ⟨tag, rest⟩
  · exact iff_of_true (fun _ _ h => absurd h (by simp)) fun _ _ h => absurd h (by simp)
  · refine ⟨fun h tag' rest' heq hlong => ?_, fun h tag' rest' heq old v r' hv => ?_⟩
    · obtain ⟨rfl, rfl⟩ := List.cons.inj heq
      refine ⟨fun htype code hcode hprefix hsize => ?_, fun htype code hcode hprefix hsize => ?_⟩
      · obtain ⟨tail, rfl⟩ := hprefix
        obtain ⟨htag, hpayload⟩ := pbDecodeTag_long n hlong hcode hsize tail
        have hvalue := (h tag _ rfl .null _ _ ((decode_integer .null htag).1 htype)).1 htype
        rw [hpayload] at hvalue
        exact (bound_of_isInteger _).1 hvalue
      · obtain ⟨tail, rfl⟩ := hprefix
        obtain ⟨htag, hpayload⟩ := pbDecodeTag_long n hlong hcode hsize tail
        have hvalue := (h tag _ rfl .null _ _ ((decode_integer .null htag).2 htype)).2 htype
        rw [hpayload] at hvalue
        exact (bound_of_isInteger _).2 hvalue
    · obtain ⟨rfl, rfl⟩ := List.cons.inj heq
      by_cases hlong : (tag &&& 0x1f).toNat = 0x1f
      · rcases ht : pbDecodeTag ⟨tag :: rest, n⟩ with _ | ⟨t, r1⟩
        · rw [decode, decodeFuel, ht] at hv
          exact absurd (congrArg Prod.fst hv) Bool.false_ne_true
        · obtain ⟨code, tail, hcode, hsize, rfl⟩ := code_of_pbDecodeTag hlong ht
          obtain ⟨htag, hpayload⟩ := pbDecodeTag_long n hlong hcode hsize tail
          obtain ⟨hunsigned, hsigned⟩ := isInteger_of_tag htag hv
          obtain ⟨hfits, hfits'⟩ := h tag _ rfl hlong
          rw [hpayload]
          have hprefix : code <+: code ++ tail := List.prefix_append _ _
          exact ⟨fun htype => hunsigned htype (hfits htype code hcode hprefix hsize),
            fun htype => hsigned htype (Nat.le_of_lt_succ (hfits' htype code hcode hprefix hsize))⟩
      · obtain ⟨htag, hpayload⟩ := pbDecodeTag_short rest n hlong
        have hsmall : (tag &&& 0x1f).toNat < 2 ^ 8 := UInt8.toNat_lt _
        rw [← Nat.mod_eq_of_lt (show (tag &&& 0x1f).toNat < 2 ^ 64 by omega)] at htag
        obtain ⟨hunsigned, hsigned⟩ := isInteger_of_tag htag hv
        rw [hpayload]
        exact ⟨fun htype => hunsigned htype (by omega), fun htype => hsigned htype (by omega)⟩

end Pson

/-- **Integers are exact or rejected** at a reader, by all three varint loops and in an integer item, exactly if no code
that they admit there is out of range. -/
theorem integers_exact_iff (r : MemoryReader) :
    (VarintExact Pson.pbDecodeVarint32 r ↔ Fits 5 (2 ^ 32) r.rest) ∧
    (VarintExact Pson.pbDecodeVarint64 r ↔ Fits 10 (2 ^ 64) r.rest) ∧
    (VarintExact Codec.pbDecodeVarint r ↔ Fits 5 (2 ^ 32) r.rest) ∧
    (Pson.ItemExact r ↔ Pson.ItemFits r.rest) :=
  ⟨Pson.varint_exact_iff 32 (by norm_num) r, Pson.varint_exact_iff 64 (by norm_num) r,
    Pson.varint_exact_iff 32 (by norm_num) r, Pson.item_exact_iff r⟩

/-- **Integers that are reduced**: 34359738367 is read as 4294967295, and -9223372036854775809 as
9223372036854775807. -/
theorem integers_reduced :
    ¬ VarintExact Pson.pbDecodeVarint32 (ofBuffer [0xFF, 0xFF, 0xFF, 0xFF, 0x7F]) ∧
    ¬ VarintExact Codec.pbDecodeVarint (ofBuffer [0xFF, 0xFF, 0xFF, 0xFF, 0x7F]) ∧
    ¬ VarintExact Pson.pbDecodeVarint64
      (ofBuffer [0xFF, 0xFF, 0xFF, 0xFF, 0xFF, 0xFF, 0xFF, 0xFF, 0xFF, 0x7F]) ∧
    ¬ Pson.ItemExact (ofBuffer [0x3F, 0x81, 0x80, 0x80, 0x80, 0x80, 0x80, 0x80, 0x80, 0x80, 0x01]) := by
  refine ⟨fun h => ?_, fun h => ?_, fun h => ?_, fun h => ?_⟩
  · exact absurd (h 4294967295 _ rfl) (by decide)
  · exact absurd (h 4294967295 _ rfl) (by decide)
  · exact absurd (h 18446744073709551615 _ rfl) (by decide)
  · have hvalue : Int64.toInt 9223372036854775807 =
        -(Pson.psonPayload (ofBuffer [0x3F, 0x81, 0x80, 0x80, 0x80, 0x80, 0x80, 0x80, 0x80, 0x80, 0x01]) : ℤ) :=
      (h _ _ rfl .null (.numberInteger 9223372036854775807) _ rfl).2 rfl
    exact absurd hvalue (by decide)

end Iotmp
