/-
Message round trip: what the decoder makes of an encoded body.

- `entryBytes`: the bytes of one field. `encode_emits`: the encoder writes the fields' bytes in iteration order.
- `arriveField`: the value a field arrives with. An integer at the top of a field goes through a varint that is written
  with 64 bits and read with 32, and a negative one is written as zero.
- `decodeLoop_entries`: the decoder on a body returns true with every field arrived, or false if one does not arrive.
- `message_round_trip_iff`: the round trip holds iff every top-level integer lies in `[0, 2 ^ 32)`.
Witness: `message_round_trip_stream_data`. Counterexample: `message_negative_lost`, the payload `-1` arrives as `0`.
-/
import Mathlib.Tactic
import Iotmp.Core.Codec
import Iotmp.Core.PsonRoundTrip

namespace Iotmp.Codec

open Json

/-! ## The bytes of a field -/

/-- the varint a top-level integer is sent as -/
def fieldVarint : Json → Option UInt64
  | .numberUnsigned v => some v
  | .numberInteger v => some (if 0 ≤ v then v.toUInt64 else 0)
  | _ => none

def fieldTag (wireType : WireType) (field : UInt8) : UInt8 := (field <<< 3) ||| wireType.code

def entryBytes (entry : UInt8 × Json) : Bytes :=
  match fieldVarint entry.2 with
  | some v => fieldTag .varint entry.1 :: Leb128.encode v.toNat
  | none => fieldTag .psonV2 entry.1 :: Pson.bytes entry.2

section

variable {W : Type} [Writer W] [LawfulWriter W]

theorem pbWriteVarintLoop_emits (rounds : ℕ) (hr : 0 < rounds) (v : UInt64) (hv : v.toNat < 128 ^ rounds) :
    Emits (pbWriteVarintLoop (W := W) rounds v) (Leb128.encode v.toNat) := by
  induction rounds generalizing v with
  | zero => exact absurd hr (lt_irrefl 0)
  | succ n ih =>
    intro w
    simp only [pbWriteVarintLoop]
    rcases lt_or_ge v.toNat 128 with h | h
    · rw [if_neg (Pson.varint_last h).1, if_neg (Pson.varint_last h).1, (Pson.varint_last h).2, Leb128.encode_of_lt h]
    · obtain ⟨hn, hv'⟩ := Pson.varint_rounds h hv
      rw [if_pos (Pson.varint_more h).1, if_pos (Pson.varint_more h).1, (Pson.varint_more h).2, Leb128.encode_of_ge h,
        ← Pson.toNat_shiftRight7]
      exact (emits_emit [UInt8.ofNat (v.toNat % 128 + 128)]).comp (ih hn (v >>> 7) hv') w

theorem pbWriteVarint_emits (v : UInt64) : Emits (pbWriteVarint (W := W) v) (Leb128.encode v.toNat) :=
  pbWriteVarintLoop_emits 10 (by norm_num) v (lt_trans v.toNat_lt (by norm_num))

theorem encodeEntry_emits (field : UInt8) (value : Json) (hv : Pson.Present value) :
    Emits (encodeEntry (W := W) field value) (entryBytes (field, value)) := by
  cases value with
  | numberUnsigned v => exact (emits_emit [fieldTag .varint field]).comp (pbWriteVarint_emits v)
  | numberInteger v => exact (emits_emit [fieldTag .varint field]).comp (pbWriteVarint_emits _)
  | _ => exact (emits_emit [fieldTag .psonV2 field]).comp (Pson.encode_writes _ hv).emits

/-- **The body is the fields' bytes in iteration order**, over every lawful writer. -/
theorem encode_emits (order : List (UInt8 × Json)) (h : ∀ e ∈ order, Pson.Present e.2) :
    Emits (encode (W := W) order) (order.flatMap entryBytes) := by
  induction order with
  | nil => exact emits_id
  | cons e order ih =>
    obtain ⟨he, ho⟩ := List.forall_mem_cons.1 h
    exact (encodeEntry_emits e.1 e.2 he).comp (ih ho)

end

/-! ## Reading a field back -/

/-- a field number below 16 has a tag of one byte -/
theorem decodeField_tag_of_lt (field : UInt8) (hf : field.toNat < 16) (wireType : WireType)
    (hw : wireType = .varint ∨ wireType = .psonV2) (tl : Bytes) (n : ℕ) :
    decodeField ⟨fieldTag wireType field :: tl, n⟩ = some ((wireType, field.toNat), ⟨tl, n + 1⟩) := by
  have hfields : (fieldTag wireType field).toNat < 128 ∧
      WireType.ofCode ((fieldTag wireType field).toNat &&& 0x07) = wireType ∧
      (fieldTag wireType field).toNat >>> 3 = field.toNat := by
    have key : ∀ f : Fin 16, (fieldTag wireType (UInt8.ofNat f)).toNat < 128 ∧
        WireType.ofCode ((fieldTag wireType (UInt8.ofNat f)).toNat &&& 0x07) = wireType ∧
        (fieldTag wireType (UInt8.ofNat f)).toNat >>> 3 = (UInt8.ofNat f).toNat := by
      rcases hw with rfl | rfl <;> decide
    simpa using key ⟨field.toNat, hf⟩
  obtain ⟨hlt, hcode, hfield⟩ := hfields
  have hread := Pson.pbDecodeVarint_encode 32 0 (fieldTag wireType field).toNat tl n (by norm_num) (by omega)
  rw [Leb128.encode_of_lt hlt, UInt8.ofNat_toNat, Nat.mod_eq_of_lt (by omega)] at hread
  simp only [List.cons_append, List.nil_append, List.length_singleton] at hread
  simp only [decodeField, pbDecodeVarint, hread, hcode, hfield]

theorem decodeField_tag (field : UInt8) (hf : field ∈ Field.protocol) (wireType : WireType)
    (hw : wireType = .varint ∨ wireType = .psonV2) (tl : Bytes) (n : ℕ) :
    decodeField ⟨fieldTag wireType field :: tl, n⟩ = some ((wireType, field.toNat), ⟨tl, n + 1⟩) := by
  have hall : (Field.protocol.all fun f => decide (f.toNat < 16)) = true := by decide
  have hlt : field.toNat < 16 := of_decide_eq_true (List.all_eq_true.1 hall field hf)
  exact decodeField_tag_of_lt field hlt wireType hw tl n

/-- the value a field arrives with, if it arrives -/
def arriveField (value : Json) : Option Json :=
  match fieldVarint value with
  | some v => if v.toNat < 2 ^ 35 then some (.numberUnsigned (UInt64.ofNat (v.toNat % 2 ^ 32))) else none
  | none => some (Pson.arrive value)

/-- what the round trip asks of a value: it is in memory, the decoder takes its sizes, and no C string is cut -/
structure Sendable (value : Json) : Prop where
  wellFormed : WellFormed value
  portable : Portable value
  nulFree : NulFree value

/-- one round of the decoder on one field -/
theorem decodeLoop_entry (size startRead fuel : ℕ) (message : IotmpMessage) (entry : UInt8 × Json)
    (hf : entry.1 ∈ Field.protocol) (hs : Sendable entry.2) (tl : Bytes) (n : ℕ) (hn : size ≠ n - startRead) :
    (∀ value, arriveField entry.2 = some value →
      decodeLoop size startRead (fuel + 1) message ⟨entryBytes entry ++ tl, n⟩ =
        decodeLoop size startRead fuel (message.setField entry.1 value) ⟨tl, n + (entryBytes entry).length⟩) ∧
    (arriveField entry.2 = none →
      (decodeLoop size startRead (fuel + 1) message ⟨entryBytes entry ++ tl, n⟩).1 = false) := by
  obtain ⟨field, value⟩ := entry
  simp only [entryBytes, arriveField, decodeLoop, if_neg hn]
  cases hv : fieldVarint value with
  | none =>
    have hd := Pson.decodeFuel_bytes value hs.wellFormed hs.portable ((Pson.bytes value ++ tl).length + 1)
      (by simp only [List.length_append]; omega) tl (n + 1) (message.get field)
    simp only [List.cons_append, decodeField_tag field hf .psonV2 (Or.inr rfl), UInt8.ofNat_toNat, Pson.decode, hd,
      Option.some.injEq, reduceCtorEq, List.length_cons, if_true]
    exact ⟨fun a ha => by rw [ha]; congr 2; omega, fun h => h.elim⟩
  | some v =>
    simp only [List.cons_append, decodeField_tag field hf .varint (Or.inl rfl), UInt8.ofNat_toNat, List.length_cons]
    by_cases hlt : v.toNat < 2 ^ 35
    · have hread := Pson.pbDecodeVarint_encode 32 4 v.toNat tl (n + 1) (by norm_num) (by norm_num; omega)
      simp only [pbDecodeVarint, hread, if_pos hlt, Option.some.injEq, reduceCtorEq]
      exact ⟨fun a ha => by rw [ha]; congr 2; omega, fun h => h.elim⟩
    · have hread := Pson.pbDecodeVarint_encode_overlong 32 4 v.toNat tl (n + 1) (by norm_num) (by norm_num; omega)
      simp only [pbDecodeVarint, hread, if_neg hlt, reduceCtorEq]
      exact ⟨fun a ha => ha.elim, fun _ => trivial⟩

/-! ## Reading a body back -/

/-- the message after the fields of a body arrived -/
def arriveFields (message : IotmpMessage) (order : List (UInt8 × Json)) : IotmpMessage :=
  order.foldl (fun m e => m.setField e.1 ((arriveField e.2).getD .null)) message

/-- **The decoder on a body.** It returns true with every field arrived, or false if one of them does not arrive. -/
theorem decodeLoop_entries (order : List (UInt8 × Json)) (hf : ∀ e ∈ order, e.1 ∈ Field.protocol)
    (hs : ∀ e ∈ order, Sendable e.2) (size startRead fuel n : ℕ) (message : IotmpMessage) (hstart : startRead ≤ n)
    (hsize : size = n - startRead + (order.flatMap entryBytes).length) (hfuel : order.length < fuel) :
    ((∀ e ∈ order, (arriveField e.2).isSome) →
      decodeLoop size startRead fuel message ⟨order.flatMap entryBytes, n⟩ =
        (true, arriveFields message order, ⟨[], n + (order.flatMap entryBytes).length⟩)) ∧
    (¬ (∀ e ∈ order, (arriveField e.2).isSome) →
      (decodeLoop size startRead fuel message ⟨order.flatMap entryBytes, n⟩).1 = false) := by
  induction order generalizing fuel n message with
  | nil =>
    obtain ⟨fuel, rfl⟩ : ∃ k, fuel = k + 1 := ⟨fuel - 1, by simp at hfuel; omega⟩
    have hdone : size = n - startRead := by simpa using hsize
    simp [decodeLoop, hdone, arriveFields]
  | cons e order ih =>
    obtain ⟨fuel, rfl⟩ : ∃ k, fuel = k + 1 := ⟨fuel - 1, by omega⟩
    obtain ⟨hf1, hf2⟩ := List.forall_mem_cons.1 hf
    obtain ⟨hs1, hs2⟩ := List.forall_mem_cons.1 hs
    have hpos : 0 < (entryBytes e).length := by unfold entryBytes; split <;> simp
    rw [List.flatMap_cons, List.length_append] at hsize
    obtain ⟨hsome, hnone⟩ := decodeLoop_entry size startRead fuel message e hf1 hs1 (order.flatMap entryBytes) n
      (by omega)
    rw [List.flatMap_cons, List.forall_mem_cons]
    rcases ha : arriveField e.2 with _ | value
    · exact ⟨fun h => absurd h.1 (by simp), fun _ => hnone ha⟩
    · obtain ⟨ih1, ih2⟩ := ih hf2 hs2 fuel (n + (entryBytes e).length) (message.setField e.1 value) (by omega)
        (by omega) (by simpa using hfuel)
      rw [hsome value ha]
      refine ⟨fun h => ?_, fun h => ih2 fun h' => h ⟨rfl, h'⟩⟩
      rw [ih1 h.2, List.length_append, Nat.add_assoc]
      simp only [arriveFields, List.foldl_cons, ha, Option.getD_some]

/-- the body as `iotmp_encoder<string_writer>` leaves it -/
def body (order : List (UInt8 × Json)) : Bytes := (encode order (⟨[], 0⟩ : StringWriter)).string

theorem body_eq_of_present (order : List (UInt8 × Json)) (h : ∀ e ∈ order, Pson.Present e.2) :
    body order = order.flatMap entryBytes := by
  rw [body, encode_emits (W := StringWriter) order h ⟨[], 0⟩]
  rfl

theorem body_eq (order : List (UInt8 × Json)) (hs : ∀ e ∈ order, Sendable e.2) :
    body order = order.flatMap entryBytes :=
  body_eq_of_present order fun e he => Pson.present_of_portable e.2 (hs e he).portable

theorem length_le_entries (order : List (UInt8 × Json)) : order.length ≤ (order.flatMap entryBytes).length := by
  induction order with
  | nil => simp
  | cons e order ih =>
    have hpos : 0 < (entryBytes e).length := by unfold entryBytes; split <;> simp
    rw [List.flatMap_cons, List.length_append, List.length_cons]
    omega

theorem decodeBody_body (type : MessageType) (order : List (UInt8 × Json)) (hf : ∀ e ∈ order, e.1 ∈ Field.protocol)
    (hs : ∀ e ∈ order, Sendable e.2) :
    ((∀ e ∈ order, (arriveField e.2).isSome) →
      decodeBody type (body order) = (true, arriveFields { messageType := type } order, ⟨[], (body order).length⟩)) ∧
    (¬ (∀ e ∈ order, (arriveField e.2).isSome) → (decodeBody type (body order)).1 = false) := by
  have hlen := length_le_entries order
  have h := decodeLoop_entries order hf hs (order.flatMap entryBytes).length 0
    ((order.flatMap entryBytes).length + 1) 0 { messageType := type } le_rfl (by simp) (by omega)
  rw [Nat.zero_add] at h
  rw [decodeBody, body_eq order hs]
  exact h

/-! ## When every field arrives equal -/

/-- an integer at the top of a field is between 0 and `2 ^ 32 - 1` -/
def FitsVarint (value : Json) : Prop := ∀ n, value.intValue = some n → 0 ≤ n ∧ n < 2 ^ 32

theorem arriveVarint_same_iff (v : UInt64) :
    (∃ arrived, (if v.toNat < 2 ^ 35 then some (.numberUnsigned (UInt64.ofNat (v.toNat % 2 ^ 32))) else none) =
      some arrived ∧ Same arrived (.numberUnsigned v)) ↔ v.toNat < 2 ^ 32 := by
  constructor
  · rintro ⟨arrived, ha, hsame⟩
    split_ifs at ha with hlt
    obtain rfl := Option.some.inj ha
    simp only [Same, Json.norm, Json.numberUnsigned.injEq] at hsame
    have h := congrArg UInt64.toNat hsame
    rw [UInt64.toNat_ofNat', Nat.mod_eq_of_lt (by omega)] at h
    omega
  · intro hlt
    refine ⟨_, if_pos (by omega), ?_⟩
    rw [Nat.mod_eq_of_lt hlt, UInt64.ofNat_toNat]
    rfl

theorem toInt_of_nonneg {v : Int64} (h : 0 ≤ v) : v.toInt = v.toUInt64.toNat := by
  rw [Int64.toNat_toUInt64_of_le h, Int64.toInt_eq_toNatClampNeg h]

theorem arriveField_same_iff (value : Json) (hs : Sendable value) :
    (∃ arrived, arriveField value = some arrived ∧ Same arrived value) ↔ FitsVarint value := by
  cases value with
  | numberUnsigned v =>
    refine (arriveVarint_same_iff v).trans ?_
    simp only [FitsVarint, intValue, Option.some.injEq, forall_eq']
    omega
  | numberInteger v =>
    simp only [arriveField, fieldVarint, FitsVarint, intValue, Option.some.injEq, forall_eq']
    by_cases h : 0 ≤ v
    · -- it is sent, and compared, as the unsigned integer of the same value
      have hnorm : (Json.numberInteger v).norm = (Json.numberUnsigned v.toUInt64).norm := by
        simp only [Json.norm, if_pos h]
      simp only [if_pos h, Same, hnorm]
      refine (arriveVarint_same_iff v.toUInt64).trans ?_
      rw [toInt_of_nonneg h]
      omega
    · have hneg : v.toInt < 0 := by
        have := (not_congr Int64.le_iff_toInt_le).1 h
        rw [Int64.toInt_zero] at this
        omega
      refine iff_of_false ?_ (by omega)
      rintro ⟨arrived, ha, hsame⟩
      have hzero : arrived = .numberUnsigned 0 := by simpa [h] using ha.symm
      simp [Same, hzero, Json.norm, h] at hsame
  | _ =>
    have hfits : ∀ v : Json, v.intValue = none → FitsVarint v := fun v hv n hn => absurd (hv.symm.trans hn) (by simp)
    exact iff_of_true ⟨_, rfl, Pson.arrive_same _ hs.wellFormed hs.portable hs.nulFree⟩ (hfits _ rfl)

/-! ## The round trip -/

/-- the same fields, each with an equal value -/
def SameFields (a b : IotmpMessage) : Prop := ∀ field, Option.Rel Same (a.fields.get field) (b.fields.get field)

/-- for every iteration order of its fields, decoding the encoded body returns true with the same fields -/
def RoundTrips (m : IotmpMessage) : Prop :=
  ∀ order, order.Perm m.fields.entries →
    ∃ m' r, decodeBody m.messageType (body order) = (true, m', r) ∧ SameFields m' m

theorem get_arriveFields (type : MessageType) (m : IotmpMessage) (order : List (UInt8 × Json))
    (ho : order.Perm m.fields.entries) (field : UInt8) :
    (arriveFields { messageType := type } order).fields.get field =
      (m.fields.get field).map fun v => (arriveField v).getD .null := by
  have hnodup : (order.map Prod.fst).Nodup :=
    (ho.map Prod.fst).nodup_iff.2 (SortedMap.nodup_of_ordered m.fields.ordered)
  have hfields : ∀ message : IotmpMessage, (arriveFields message order).fields =
      (order.map fun e => (e.1, (arriveField e.2).getD .null)).foldl (fun f e => f.set e.1 e.2) message.fields := by
    intro message
    rw [List.foldl_map]
    exact (List.foldl_hom IotmpMessage.fields fun _ _ => rfl).symm
  rw [hfields, SortedMap.get_foldl_set _ _ (by rw [List.map_map]; exact hnodup), SortedMap.get_empty, Option.or_none,
    SortedMap.find_map fun v => (arriveField v).getD .null, SortedMap.find_perm ho hnodup]
  rfl

/-- a message whose integers all fit arrives -/
theorem roundTrips_of_fits {m : IotmpMessage} (hf : ∀ e ∈ m.fields.entries, e.1 ∈ Field.protocol)
    (hs : ∀ e ∈ m.fields.entries, Sendable e.2) (h : ∀ e ∈ m.fields.entries, FitsVarint e.2) : RoundTrips m := by
  intro order ho
  have hmem : ∀ e ∈ order, e ∈ m.fields.entries := fun e he => ho.mem_iff.1 he
  have harrive : ∀ e ∈ order, (arriveField e.2).isSome := by
    intro e he
    obtain ⟨arrived, ha, -⟩ := (arriveField_same_iff e.2 (hs e (hmem e he))).2 (h e (hmem e he))
    rw [ha, Option.isSome_some]
  obtain ⟨hsome, -⟩ := decodeBody_body m.messageType order (fun e he => hf e (hmem e he))
    fun e he => hs e (hmem e he)
  refine ⟨_, _, hsome harrive, fun field => ?_⟩
  rw [get_arriveFields _ m order ho]
  rcases hget : m.fields.get field with _ | value
  · exact Option.Rel.none
  · have he := (SortedMap.get_eq_some_iff _ _ _).1 hget
    obtain ⟨arrived, ha, hsame⟩ := (arriveField_same_iff value (hs _ he)).2 (h _ he)
    rw [Option.map_some, ha]
    exact Option.Rel.some hsame

/-- **The round trip.** A message over the protocol's fields survives it, in every iteration order, exactly when every
integer at the top of a field is between 0 and `2 ^ 32 - 1`. -/
theorem message_round_trip_iff (m : IotmpMessage) (hf : ∀ e ∈ m.fields.entries, e.1 ∈ Field.protocol)
    (hs : ∀ e ∈ m.fields.entries, Sendable e.2) :
    RoundTrips m ↔ ∀ e ∈ m.fields.entries, FitsVarint e.2 := by
  constructor
  · intro h e he
    obtain ⟨m', r, hd, hsame⟩ := h m.fields.entries (List.Perm.refl _)
    obtain ⟨hsome, hnone⟩ := decodeBody_body m.messageType m.fields.entries hf hs
    by_cases harrive : ∀ e ∈ m.fields.entries, (arriveField e.2).isSome
    · obtain rfl : m' = arriveFields { messageType := m.messageType } m.fields.entries :=
        (congrArg (fun d => d.2.1) (hd.symm.trans (hsome harrive)))
      have hget : m.fields.get e.1 = some e.2 := (SortedMap.get_eq_some_iff _ _ _).2 he
      have hfield := hsame e.1
      rw [get_arriveFields _ m _ (List.Perm.refl _), hget] at hfield
      obtain ⟨arrived, ha⟩ := Option.isSome_iff_exists.1 (harrive e he)
      rw [Option.map_some, ha] at hfield
      exact (arriveField_same_iff e.2 (hs e he)).1 ⟨arrived, ha, by cases hfield; assumption⟩
    · exact absurd ((congrArg Prod.fst hd).symm.trans (hnone harrive)) (by simp)
  · exact roundTrips_of_fits hf hs

/-- stream 7, with an array for its payload -/
def streamDataMessage : IotmpMessage :=
  (IotmpMessage.withStreamId 7 .streamData).setField Field.PAYLOAD (.array [.numberInteger (-1), .boolean true])

theorem message_round_trip_stream_data : RoundTrips streamDataMessage := by
  have hentries : streamDataMessage.fields.entries =
      [(Field.STREAM_ID, .numberUnsigned 7), (Field.PAYLOAD, .array [.numberInteger (-1), .boolean true])] := rfl
  refine (message_round_trip_iff streamDataMessage ?_ ?_).2 ?_
  · rw [hentries]; decide
  · rw [hentries]
    intro e he
    fin_cases he <;> exact ⟨by decide, by decide, by decide⟩
  · rw [hentries]
    intro e he
    fin_cases he <;> simp [FitsVarint, intValue]

/-- a payload of `-1` -/
def negativeMessage : IotmpMessage :=
  ({ messageType := .ok } : IotmpMessage).setField Field.PAYLOAD (.numberInteger (-1))

/-- the payload `-1` arrives as `0` -/
theorem message_negative_lost : ¬ RoundTrips negativeMessage := by
  intro h
  obtain ⟨m', r, hd, hsame⟩ := h _ (List.Perm.refl _)
  have hzero : m'.fields.get Field.PAYLOAD = some (.numberUnsigned 0) := by
    obtain rfl := congrArg (fun d => d.2.1) hd
    rfl
  have hfield := hsame Field.PAYLOAD
  rw [hzero, show negativeMessage.fields.get Field.PAYLOAD = some (.numberInteger (-1)) from rfl] at hfield
  cases hfield with
  | some hs => simp [Same, Json.norm] at hs

end Iotmp.Codec
