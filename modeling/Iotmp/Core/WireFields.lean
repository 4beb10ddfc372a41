/-
Identifiers on the wire (`iotmp_decoder.hpp`: `decode_field`, `decode`; `iotmp_message.hpp`: `operator[]`,
`get_stream_id`).

A field number travels in a varint, a stream id as a varint or as PSON. The decoder keeps 32 bits of a varint, the
message 8 bits of the field number, and `get_stream_id` 16 bits of the id.

- `readCode`, `psonPayload`: the number on the wire, of any size. `wireFields`: the fields of a body under these.
- `decode_fields`: what the decoder makes of them: it stores them one after the other, each under the low 8 bits of its
  number.
- `wire_ids_iff`: no identifier is aliased iff none is out of range.
Witness: `wire_ids_stream_data`. Counterexamples: `field_260_stored_as_resource`, `stream_65541_read_as_5`.
-/
import Mathlib.Tactic
import Iotmp.Core.CodecRoundTrip

namespace Iotmp

/-! ## Numbers on the wire -/

/-- the number of a varint, of any size, and the reader behind it -/
def readCode : Bytes → ℕ → Option (ℕ × MemoryReader)
  | [], _ => none
  | b :: bs, n =>
    if 128 ≤ b.toNat then (readCode bs (n + 1)).map fun p => (b.toNat % 128 + 128 * p.1, p.2)
    else some (b.toNat % 128, ⟨bs, n + 1⟩)

theorem readCode_code (bs tl : Bytes) (n : ℕ) (h : Leb128.Code bs) :
    readCode (bs ++ tl) n = some (Leb128.value bs, ⟨tl, n + bs.length⟩) := by
  induction bs generalizing n with
  | nil => exact absurd h id
  | cons b bs ih =>
    cases bs with
    | nil =>
      have hb : b.toNat < 128 := h
      rw [List.cons_append, readCode, if_neg (by omega)]
      simp [Leb128.value]
    | cons c cs =>
      obtain ⟨hb, hc⟩ : 128 ≤ b.toNat ∧ Leb128.Code (c :: cs) := h
      rw [List.cons_append, readCode, if_pos hb, ih _ hc, Option.map_some]
      simp [Leb128.value, Nat.add_assoc, Nat.add_comm]

namespace Pson

/-- the decoder reads that number modulo `2 ^ width`, if it reads it at all -/
theorem pbDecodeVarintLoop_readCode (width rounds bitPos varint : ℕ) (bs : Bytes) (n v : ℕ) (r : MemoryReader)
    (hv : varint < 2 ^ bitPos) (h : pbDecodeVarintLoop width rounds bitPos varint ⟨bs, n⟩ = some (v, r)) :
    ∃ w, readCode bs n = some (w, r) ∧ v = (varint + 2 ^ bitPos * w) % 2 ^ width := by
  induction rounds generalizing bitPos varint bs n with
  | zero => exact absurd h (by simp [pbDecodeVarintLoop])
  | succ rounds ih =>
    cases bs with
    | nil => exact absurd h (by simp [pbDecodeVarintLoop])
    | cons b bs =>
      rcases le_or_gt width bitPos with hbit | hbit
      · simp [pbDecodeVarintLoop, hbit] at h
      · rw [pbDecodeVarintLoop_cons _ _ _ _ _ _ _ hbit hv] at h
        rw [readCode]
        split_ifs at h with hmore
        · obtain ⟨w, hw, rfl⟩ := ih _ _ _ _ (chunk_lt width b hv) h
          refine ⟨b.toNat % 128 + 128 * w, by rw [if_pos hmore, hw, Option.map_some], ?_⟩
          calc _ = (varint + 2 ^ bitPos * (b.toNat % 128) + 2 ^ (bitPos + 7) * w) % 2 ^ width := Nat.mod_add_mod _ _ _
            _ = _ := by rw [pow_add]; ring_nf
        · simp only [Option.some.injEq, Prod.mk.injEq] at h
          exact ⟨b.toNat % 128, by rw [if_neg hmore, h.2], h.1.symm⟩

theorem pbDecodeVarint_readCode {width v : ℕ} {r r' : MemoryReader} (h : pbDecodeVarint width r = some (v, r')) :
    ∃ w, readCode r.rest r.bytesRead = some (w, r') ∧ v = w % 2 ^ width := by
  obtain ⟨w, hw, hv⟩ := pbDecodeVarintLoop_readCode width _ 0 0 r.rest r.bytesRead v r' (by norm_num) h
  exact ⟨w, hw, by simpa using hv⟩

/-- the payload of the tag of a PSON value, of any size -/
def psonPayload (r : MemoryReader) : ℕ :=
  match r.readByte with
  | none => 0
  | some (byte, r) =>
    let value := (byte &&& 0x1f).toNat
    if value = 0x1f then ((readCode r.rest r.bytesRead).map Prod.fst).getD 0 else value

theorem pbDecodeTag_payload {r r' : MemoryReader} {wireType : PsonWireType} {payload : ℕ}
    (h : pbDecodeTag r = some ((wireType, payload), r')) : payload = psonPayload r % 2 ^ 64 := by
  unfold pbDecodeTag at h
  unfold psonPayload
  rcases hb : r.readByte with _ | ⟨b, r1⟩
  · simp [hb] at h
  · simp only [hb] at h ⊢
    split_ifs at h ⊢ with hlong
    · rcases hv : pbDecodeVarint64 r1 with _ | ⟨v, r2⟩
      · simp [hv] at h
      · simp only [hv, Option.some.injEq, Prod.mk.injEq] at h
        obtain ⟨w, hw, rfl⟩ := pbDecodeVarint_readCode hv
        rw [hw, ← h.1.2]
        rfl
    · simp only [Option.some.injEq, Prod.mk.injEq] at h
      have := (b &&& 0x1f).toNat_lt
      rw [← h.1.2, Nat.mod_eq_of_lt (by omega)]

end Pson

/-! ## Fields on the wire -/

inductive WireValue where
  | varint (v : ℕ)
  /-- a PSON value, with the payload of its tag -/
  | pson (payload : ℕ) (value : Json)

structure WireField where
  number : ℕ
  value : WireValue

/-- what the decoder stores of it -/
def WireValue.stored : WireValue → Json
  | .varint v => .numberUnsigned (UInt64.ofNat (v % 2 ^ 32))
  | .pson _ value => value

/-- the key it stores it under -/
def WireField.key (f : WireField) : UInt8 := UInt8.ofNat f.number

/-- a tag of wire type 0 has a varint behind it, any other a PSON value -/
def wireFieldsFrom : ℕ → MemoryReader → List WireField
  | 0, _ => []
  | fuel + 1, r =>
    match readCode r.rest r.bytesRead with
    | none => []
    | some (tag, r) =>
      if tag % 8 = 0 then
        match readCode r.rest r.bytesRead with
        | none => []
        | some (v, r) => ⟨tag / 8, .varint v⟩ :: wireFieldsFrom fuel r
      else
        match Pson.decode r .null with
        | (false, _, _) => []
        | (true, value, r') => ⟨tag / 8, .pson (Pson.psonPayload r) value⟩ :: wireFieldsFrom fuel r'

/-- the fields of a body, their numbers as they are on the wire -/
def wireFields (body : Bytes) : List WireField := wireFieldsFrom (body.length + 1) (MemoryReader.ofBuffer body)

/-! ## What the decoder makes of them -/

namespace Pson

/-- a value that decodes does not depend on what it is decoded into -/
theorem decodeFuel_old (fuel : ℕ) (r r' : MemoryReader) (old old' v : Json)
    (h : decodeFuel fuel r old = (true, v, r')) : decodeFuel fuel r old' = (true, v, r') := by
  cases fuel with
  | zero => exact absurd (congrArg Prod.fst h) Bool.false_ne_true
  | succ fuel =>
    have hraw : ∀ (size : ℕ) (ofBytes : Bytes → Json) (r1 : MemoryReader),
        decodeRaw size ofBytes r1 old = (true, v, r') → decodeRaw size ofBytes r1 old' = (true, v, r') := by
      intro size ofBytes r1 h
      unfold decodeRaw at h ⊢
      rcases hr : r1.read size with _ | p
      · simp [hr] at h
      · simpa [hr] using h
    unfold decodeFuel at h ⊢
    rcases ht : pbDecodeTag r with _ | ⟨⟨wireType, payload⟩, r1⟩
    · simp [ht] at h
    · simp only [ht] at h ⊢
      cases wireType with
      | floatingT =>
        rcases payload with _ | _ | payload
        · exact hraw 4 _ r1 h
        · exact hraw 8 _ r1 h
        · exact absurd (congrArg Prod.fst h) Bool.false_ne_true
      | discreteT =>
        rcases payload with _ | _ | _ | payload
        · exact h
        · exact h
        · exact h
        · exact absurd (congrArg Prod.fst h) Bool.false_ne_true
      | stringT =>
        rcases hs : readSized payload r1 with _ | p
        · simp [hs] at h
        · simpa [hs] using h
      | bytesT =>
        rcases hs : readSized payload r1 with _ | p
        · simp [hs] at h
        · simpa [hs] using h
      | _ => exact h

theorem ofNat_mod (n : ℕ) : UInt64.ofNat (n % 2 ^ 64) = UInt64.ofNat n := by
  apply UInt64.toNat_inj.1
  rw [UInt64.toNat_ofNat', UInt64.toNat_ofNat', Nat.mod_mod]

/-- an integer is the payload of its tag, modulo `2 ^ 64` -/
theorem decodeFuel_integers {fuel : ℕ} {r r' : MemoryReader} {old v : Json}
    (h : decodeFuel fuel r old = (true, v, r')) :
    (∀ u, v = .numberUnsigned u → u = UInt64.ofNat (psonPayload r)) ∧
      ∀ i, v = .numberInteger i → i = -(UInt64.ofNat (psonPayload r)).toInt64 := by
  cases fuel with
  | zero => exact absurd (congrArg Prod.fst h) Bool.false_ne_true
  | succ fuel =>
    unfold decodeFuel at h
    rcases ht : pbDecodeTag r with _ | ⟨⟨wireType, payload⟩, r1⟩
    · simp [ht] at h
    · have hpayload : UInt64.ofNat payload = UInt64.ofNat (psonPayload r) := by
        rw [pbDecodeTag_payload ht, ofNat_mod]
      -- a value of any other kind
      have hother : ∀ {ok : Bool} {w : Json} {r2 : MemoryReader}, (ok, w, r2) = (true, v, r') →
          (∀ u, w ≠ .numberUnsigned u) → (∀ i, w ≠ .numberInteger i) →
          (∀ u, v = .numberUnsigned u → u = UInt64.ofNat (psonPayload r)) ∧
            ∀ i, v = .numberInteger i → i = -(UInt64.ofNat (psonPayload r)).toInt64 := by
        intro ok w r2 h hu hi
        obtain rfl : w = v := (Prod.mk.inj (Prod.mk.inj h).2).1
        exact ⟨fun u h => absurd h (hu u), fun i h => absurd h (hi i)⟩
      have hraw : ∀ (size : ℕ) (ofBytes : Bytes → UInt64),
          decodeRaw size (fun bs => .numberFloat (ofBytes bs)) r1 old = (true, v, r') →
          (∀ u, v = .numberUnsigned u → u = UInt64.ofNat (psonPayload r)) ∧
            ∀ i, v = .numberInteger i → i = -(UInt64.ofNat (psonPayload r)).toInt64 := by
        intro size ofBytes h
        unfold decodeRaw at h
        rcases hr : r1.read size with _ | p
        · simp [hr] at h
        · simp only [hr] at h
          exact hother h (fun _ => by simp) fun _ => by simp
      simp only [ht] at h
      cases wireType with
      | unsignedT =>
        obtain rfl : Json.numberUnsigned (UInt64.ofNat payload) = v := (Prod.mk.inj (Prod.mk.inj h).2).1
        exact ⟨fun u hu => (Json.numberUnsigned.inj hu).symm.trans hpayload, fun i => by simp⟩
      | signedT =>
        obtain rfl : Json.numberInteger (-(UInt64.ofNat payload).toInt64) = v := (Prod.mk.inj (Prod.mk.inj h).2).1
        exact ⟨fun u => by simp, fun i hi => by rw [← Json.numberInteger.inj hi, hpayload]⟩
      | floatingT =>
        rcases payload with _ | _ | payload
        · exact hraw 4 _ h
        · exact hraw 8 _ h
        · exact absurd (congrArg Prod.fst h) Bool.false_ne_true
      | discreteT =>
        rcases payload with _ | _ | _ | payload
        · exact hother h (fun _ => by simp) fun _ => by simp
        · exact hother h (fun _ => by simp) fun _ => by simp
        · exact hother h (fun _ => by simp) fun _ => by simp
        · exact absurd (congrArg Prod.fst h) Bool.false_ne_true
      | stringT =>
        rcases hs : readSized payload r1 with _ | p
        · simp [hs] at h
        · simp only [hs] at h
          exact hother h (fun _ => by simp) fun _ => by simp
      | bytesT =>
        rcases hs : readSized payload r1 with _ | p
        · simp [hs] at h
        · simp only [hs] at h
          exact hother h (fun _ => by simp) fun _ => by simp
      | mapT => exact hother h (fun _ => by simp) fun _ => by simp
      | arrayT => exact hother h (fun _ => by simp) fun _ => by simp

end Pson

namespace Codec

def store (m : IotmpMessage) (f : WireField) : IotmpMessage := m.setField f.key f.value.stored

theorem key_eq (tag : ℕ) : UInt8.ofNat (tag % 2 ^ 32 / 8) = UInt8.ofNat (tag / 8) := by
  apply UInt8.toNat_inj.1
  rw [UInt8.toNat_ofNat', UInt8.toNat_ofNat']
  omega

/-- the tag of a field, from the number on the wire -/
theorem decodeField_readCode {r r' : MemoryReader} {wireType : WireType} {fieldNumber : ℕ}
    (h : decodeField r = some ((wireType, fieldNumber), r')) :
    ∃ tag, readCode r.rest r.bytesRead = some (tag, r') ∧ wireType = WireType.ofCode (tag % 8) ∧
      UInt8.ofNat fieldNumber = UInt8.ofNat (tag / 8) := by
  unfold decodeField at h
  rcases hv : pbDecodeVarint r with _ | ⟨v, r1⟩
  · simp [hv] at h
  · simp only [hv, Option.some.injEq, Prod.mk.injEq] at h
    obtain ⟨tag, htag, rfl⟩ := Pson.pbDecodeVarint_readCode hv
    obtain ⟨⟨htype, hnumber⟩, rfl⟩ := h
    refine ⟨tag, htag, ?_, ?_⟩
    · rw [← htype, show (0x07 : ℕ) = 2 ^ 3 - 1 from rfl, Nat.and_two_pow_sub_one_eq_mod]
      congr 1
      omega
    · rw [← hnumber, Nat.shiftRight_eq_div_pow]
      exact key_eq tag

theorem ofCode_varint {c : ℕ} (h : WireType.varint = WireType.ofCode c) : c = 0 := by
  unfold WireType.ofCode at h
  split_ifs at h
  assumption

theorem ofCode_psonV2 {c : ℕ} (h : WireType.psonV2 = WireType.ofCode c) : c = 2 := by
  unfold WireType.ofCode at h
  split_ifs at h
  assumption

/-- **The decoder stores the fields of the wire**, one after the other. -/
theorem decodeLoop_fields (size startRead fuel : ℕ) (message m : IotmpMessage) (r r' : MemoryReader)
    (hstart : startRead ≤ r.bytesRead) (hsize : r.bytesRead + r.rest.length = startRead + size)
    (h : decodeLoop size startRead fuel message r = (true, m, r')) :
    m = (wireFieldsFrom fuel r).foldl store message := by
  induction fuel generalizing message r with
  | zero => exact absurd (congrArg Prod.fst h) Bool.false_ne_true
  | succ fuel ih =>
    unfold decodeLoop at h
    split_ifs at h with hend
    · -- the whole body has been read
      obtain rfl : message = m := (Prod.mk.inj (Prod.mk.inj h).2).1
      have hrest : r.rest = [] := List.length_eq_zero_iff.1 (by omega)
      rw [wireFieldsFrom, hrest]
      rfl
    · rcases hf : decodeField r with _ | ⟨⟨wireType, fieldNumber⟩, r1⟩
      · simp [hf] at h
      · obtain ⟨tag, htag, htype, hkey⟩ := decodeField_readCode hf
        have hreads := (decodeField_lt hf).1
        simp only [hf] at h
        rw [wireFieldsFrom, htag]
        cases wireType with
        | varint =>
          rcases hv : pbDecodeVarint r1 with _ | ⟨value, r2⟩
          · simp [hv] at h
          · obtain ⟨w, hw, rfl⟩ := Pson.pbDecodeVarint_readCode hv
            simp only [hv] at h
            simp only [ofCode_varint htype, if_true, hw]
            obtain ⟨bs, hbs, hn⟩ := hreads.trans (Pson.pbDecodeVarint_reads hv)
            rw [hbs, List.length_append] at hsize
            rw [ih _ r2 (by omega) (by omega) h, hkey]
            rfl
        | psonV2 =>
          rcases hd : Pson.decode r1 (message.get (UInt8.ofNat fieldNumber)) with ⟨_ | _, value, r2⟩
          · simp [hd] at h
          · have hnull := Pson.decodeFuel_old _ r1 r2 _ .null value hd
            have hvalue : r1.Reads r2 := by
              simpa only [hd] using Pson.decode_reads r1 (message.get (UInt8.ofNat fieldNumber))
            simp only [hd, if_true] at h
            simp only [ofCode_psonV2 htype, Pson.decode, hnull]
            obtain ⟨bs, hbs, hn⟩ := hreads.trans hvalue
            rw [hbs, List.length_append] at hsize
            rw [ih _ r2 (by omega) (by omega) h, hkey]
            rfl
        | psonV1 => exact absurd (congrArg Prod.fst h) Bool.false_ne_true
        | unknown code => exact absurd (congrArg Prod.fst h) Bool.false_ne_true

theorem decode_fields {type : MessageType} {body : Bytes} {m : IotmpMessage} {r : MemoryReader}
    (h : decodeBody type body = (true, m, r)) : m = (wireFields body).foldl store { messageType := type } :=
  decodeLoop_fields body.length 0 _ _ m _ r (Nat.zero_le _) rfl h

/-- the last field stored under a key -/
theorem get_foldl_store (fs : List WireField) (m : IotmpMessage) (key : UInt8) :
    (fs.foldl store m).fields.get key =
      (((fs.filter fun f => f.key = key).getLast?).map fun f => f.value.stored).or (m.fields.get key) := by
  induction fs using List.reverseRecOn with
  | nil => rfl
  | append_singleton fs f ih =>
    rw [List.foldl_append, List.filter_append]
    by_cases hf : f.key = key
    · simp [store, IotmpMessage.setField, hf]
    · have hne : ¬ key = f.key := fun h => hf h.symm
      simpa [store, IotmpMessage.setField, SortedMap.get_set, hf, hne] using ih

end Codec

/-! ## Aliased and out of range -/

def WireValue.IsNumber : WireValue → Prop
  | .varint _ => True
  | .pson _ (.numberUnsigned _) => True
  | .pson _ (.numberInteger _) => True
  | .pson _ (.numberFloat _) => True
  | _ => False

/-- the integer it stands for on the wire; a floating-point number may be integral -/
def WireValue.Denotes : WireValue → ℤ → Prop
  | .varint v, n => n = v
  | .pson payload (.numberUnsigned _), n => n = payload
  | .pson payload (.numberInteger _), n => n = -payload
  | .pson _ (.numberFloat bits), n => (Json.asInt64 bits).map Int64.toInt = some n
  | _, _ => False

/-- the field with the stream id -/
def streamField (fs : List WireField) : Option WireField :=
  (fs.filter fun f => f.number = Field.STREAM_ID.toNat).getLast?

/-- no identifier of the wire became another one in the message -/
structure Unaliased (fs : List WireField) (m : IotmpMessage) : Prop where
  stems : ∀ key v, m.fields.get key = some v → ∃ f ∈ fs, f.number = key.toNat ∧ f.value.stored = v
  apart : ∀ f ∈ fs, ∀ g ∈ fs, f.number ≠ g.number → f.key ≠ g.key
  streamId : ∀ f, streamField fs = some f → f.value.IsNumber → f.value.Denotes m.getStreamId.toNat

structure InRange (fs : List WireField) : Prop where
  numbers : ∀ f ∈ fs, f.number ≤ 255
  streamId : ∀ f, streamField fs = some f → f.value.IsNumber → ∃ n : ℕ, n ≤ 65535 ∧ f.value.Denotes n

/-! ## An id in range is read as it is -/

/-- an integral double in range loses nothing as a stream id -/
theorem truncate_of_asInt64 {bits : UInt64} {n : ℕ} (hn : n ≤ 65535)
    (h : (Json.asInt64 bits).map Int64.toInt = some (n : ℤ)) : Json.truncate 32 bits = n := by
  obtain ⟨i, hi, hin⟩ := Option.map_eq_some_iff.1 h
  unfold Json.asInt64 at hi
  unfold Json.truncate
  rcases hd : Json.dyadic bits with _ | ⟨negative, m, e⟩
  · simp [hd] at hi
  · simp only [hd] at hi ⊢
    rcases hk : Json.integral m e with _ | k
    · simp [hk] at hi
    · have hvalue : (if 0 ≤ e then m * 2 ^ e.toNat else m / 2 ^ (-e).toNat) = k := by
        unfold Json.integral at hk
        split_ifs at hk ⊢ <;> exact Option.some.inj hk
      simp only [hk] at hi
      rw [hvalue]
      split_ifs at hi with hneg hbound hbound
      · obtain rfl := Option.some.inj hi
        rw [Int64.toInt_ofInt_of_le (by omega) (by omega)] at hin
        rw [if_pos hneg, if_pos (by omega)]
        exact hin
      · obtain rfl := Option.some.inj hi
        rw [Int64.toInt_ofInt_of_le (by omega) (by omega)] at hin
        rw [if_neg hneg, if_pos (by omega)]
        exact hin

/-- what the decoder stores is the number on the wire, modulo `2 ^ 64` if it is PSON -/
def WireValue.Faithful : WireValue → Prop
  | .varint _ => True
  | .pson payload v =>
    (∀ u, v = .numberUnsigned u → u = UInt64.ofNat payload) ∧
      ∀ i, v = .numberInteger i → i = -(UInt64.ofNat payload).toInt64

theorem wireFieldsFrom_faithful (fuel : ℕ) (r : MemoryReader) : ∀ f ∈ wireFieldsFrom fuel r, f.value.Faithful := by
  induction fuel generalizing r with
  | zero => exact fun f hf => absurd hf List.not_mem_nil
  | succ fuel ih =>
    rw [wireFieldsFrom]
    rcases readCode r.rest r.bytesRead with _ | ⟨tag, r1⟩
    · exact fun f hf => absurd hf List.not_mem_nil
    · simp only
      split_ifs
      · rcases readCode r1.rest r1.bytesRead with _ | ⟨v, r2⟩
        · exact fun f hf => absurd hf List.not_mem_nil
        · exact List.forall_mem_cons.2 ⟨trivial, ih r2⟩
      · rcases hd : Pson.decode r1 .null with ⟨_ | _, value, r2⟩
        · exact fun f hf => absurd hf List.not_mem_nil
        · exact List.forall_mem_cons.2 ⟨Pson.decodeFuel_integers hd, ih r2⟩

theorem getUInt16_of_denotes {value : WireValue} (hf : value.Faithful) {n : ℕ} (hn : n ≤ 65535)
    (hd : value.Denotes n) : ∃ id, value.stored.getUInt16 = some id ∧ id.toNat = n := by
  rcases value with v | ⟨payload, v⟩
  · obtain rfl : n = v := Int.ofNat_inj.1 hd
    refine ⟨_, rfl, ?_⟩
    rw [UInt64.toNat_toUInt16, UInt64.toNat_ofNat']
    omega
  · cases v with
    | numberUnsigned u =>
      obtain rfl := hf.1 u rfl
      obtain rfl : n = payload := Int.ofNat_inj.1 hd
      refine ⟨_, rfl, ?_⟩
      rw [UInt64.toNat_toUInt16, UInt64.toNat_ofNat']
      omega
    | numberInteger i =>
      obtain rfl := hf.2 i rfl
      have hd : (n : ℤ) = -payload := hd
      obtain ⟨rfl, rfl⟩ : n = 0 ∧ payload = 0 := by omega
      exact ⟨0, rfl, rfl⟩
    | numberFloat bits =>
      refine ⟨_, rfl, ?_⟩
      rw [truncate_of_asInt64 hn hd, UInt16.ofInt, UInt16.toNat_ofNat']
      omega
    | _ => exact hd.elim

theorem WireField.toNat_key {f : WireField} (h : f.number ≤ 255) : f.key.toNat = f.number := by
  rw [WireField.key, UInt8.toNat_ofNat', Nat.mod_eq_of_lt (by omega)]

/-- below 256 the fields of a number are those of its key -/
theorem filter_key {fs : List WireField} (h : ∀ f ∈ fs, f.number ≤ 255) (key : UInt8) :
    (fs.filter fun f => f.key = key) = fs.filter fun f => f.number = key.toNat := by
  refine List.filter_congr fun f hf => decide_eq_decide.2 ?_
  rw [← UInt8.toNat_inj, WireField.toNat_key (h f hf)]

theorem get_decoded (type : MessageType) (fs : List WireField) (key : UInt8) :
    (fs.foldl Codec.store { messageType := type }).fields.get key =
      ((fs.filter fun f => f.key = key).getLast?).map fun f => f.value.stored := by
  rw [Codec.get_foldl_store]
  exact Option.or_none

/-- a field above 255 is stored under the key of another one -/
theorem Unaliased.numbers {type : MessageType} {fs : List WireField}
    (h : Unaliased fs (fs.foldl Codec.store { messageType := type })) : ∀ f ∈ fs, f.number ≤ 255 := by
  intro f hf
  by_contra hbig
  have hmem : f ∈ fs.filter fun g => g.key = f.key := List.mem_filter.2 ⟨hf, decide_eq_true rfl⟩
  obtain ⟨last, hlast⟩ := Option.ne_none_iff_exists'.1 (mt List.getLast?_eq_none_iff.1 (List.ne_nil_of_mem hmem))
  have hget := get_decoded type fs f.key
  rw [hlast, Option.map_some] at hget
  -- the entry stems from a field of that very number, which is not `f`
  obtain ⟨g, hg, hnumber, -⟩ := h.stems f.key _ hget
  have hlt : f.key.toNat < 256 := f.key.toNat_lt
  have hkey : g.key = f.key := by
    apply UInt8.toNat_inj.1
    rw [WireField.toNat_key (by omega), hnumber]
  exact h.apart f hf g hg (by omega) hkey.symm

/-- **Wire identifiers.** On a body that decodes, every entry stems from a field of its number, fields of different
numbers are stored apart and the stream id is the one on the wire, exactly when no field number is above 255 and the
stream id, if it is a number, is an integer from 0 to 65535. -/
theorem wire_ids_iff (type : MessageType) (body : Bytes) (m : IotmpMessage) (r : MemoryReader)
    (h : Codec.decodeBody type body = (true, m, r)) : Unaliased (wireFields body) m ↔ InRange (wireFields body) := by
  obtain rfl := Codec.decode_fields h
  have hfaithful := wireFieldsFrom_faithful (body.length + 1) (MemoryReader.ofBuffer body)
  constructor
  · intro hu
    refine ⟨hu.numbers, fun f hf hnumber => ⟨_, ?_, hu.streamId f hf hnumber⟩⟩
    exact Nat.le_of_lt_succ (UInt16.toNat_lt _)
  · intro hr
    refine ⟨fun key v hv => ?_, fun f hf g hg hne heq => ?_, fun f hf hnumber => ?_⟩
    · rw [get_decoded, filter_key hr.numbers] at hv
      obtain ⟨f, hlast, rfl⟩ := Option.map_eq_some_iff.1 hv
      obtain ⟨hmem, hkey⟩ := List.mem_filter.1 (List.mem_of_getLast? hlast)
      exact ⟨f, hmem, of_decide_eq_true hkey, rfl⟩
    · have := congrArg UInt8.toNat heq
      rw [WireField.toNat_key (hr.numbers f hf), WireField.toNat_key (hr.numbers g hg)] at this
      exact hne this
    · obtain ⟨n, hn, hd⟩ := hr.streamId f hf hnumber
      have hmem := (List.mem_filter.1 (List.mem_of_getLast? hf)).1
      obtain ⟨id, hid, rfl⟩ := getUInt16_of_denotes (hfaithful f hmem) hn hd
      have hget := get_decoded type (wireFields body) Field.STREAM_ID
      have hlast : ((wireFields body).filter fun f => f.number = Field.STREAM_ID.toNat).getLast? = some f := hf
      rw [filter_key hr.numbers, hlast, Option.map_some] at hget
      rw [IotmpMessage.getStreamId, hget, Option.bind_some, hid]
      exact hd

/-- stream data for stream 7, with one byte of payload -/
def streamSevenBody : Bytes := [0x08, 0x07, 0x1A, 0xA1, 0x2A]

theorem wire_ids_stream_data :
    ∃ m r, Codec.decodeBody .streamData streamSevenBody = (true, m, r) ∧ Unaliased (wireFields streamSevenBody) m := by
  refine ⟨_, _, rfl, (wire_ids_iff .streamData streamSevenBody _ _ rfl).2 ⟨by decide, fun f hf _ => ?_⟩⟩
  obtain rfl : (⟨1, .varint 7⟩ : WireField) = f := Option.some.inj hf
  exact ⟨7, by decide, rfl⟩

/-- **Field 260 is stored as the resource.** -/
theorem field_260_stored_as_resource :
    ∃ m r, Codec.decodeBody .run [0xA2, 0x10, 0x81, 0x78] = (true, m, r) ∧
      wireFields [0xA2, 0x10, 0x81, 0x78] = [⟨260, .pson 1 (.string [0x78])⟩] ∧
      m.fields.get Field.RESOURCE = some (.string [0x78]) ∧ ¬ Unaliased (wireFields [0xA2, 0x10, 0x81, 0x78]) m := by
  refine ⟨_, _, rfl, rfl, rfl, fun h => ?_⟩
  obtain ⟨f, hf, hnumber, -⟩ := h.stems Field.RESOURCE _ rfl
  obtain rfl := List.mem_singleton.1 hf
  exact absurd hnumber (by decide)

/-- **Stream 65541 is read as stream 5.** -/
theorem stream_65541_read_as_5 :
    ∃ m r, Codec.decodeBody .streamData [0x08, 0x85, 0x80, 0x04] = (true, m, r) ∧
      wireFields [0x08, 0x85, 0x80, 0x04] = [⟨1, .varint 65541⟩] ∧ m.getStreamId = 5 ∧
      ¬ Unaliased (wireFields [0x08, 0x85, 0x80, 0x04]) m := by
  refine ⟨_, _, rfl, rfl, rfl, fun h => ?_⟩
  have hd : ((5 : ℕ) : ℤ) = ((65541 : ℕ) : ℤ) := h.streamId _ rfl trivial
  omega

end Iotmp
