/-
What a decode reads: it moves the reader forward over the bytes it looks at and over nothing else.

- `MemoryReader.Reads r r'`: `r'` is `r` after some of its unread bytes were read.
- `decodeFuel_reads`: every decode reads, whether it succeeds or fails. `pbDecodeTag_lt`: a tag takes at least a byte.
- `decodeFuel_eq`: any fuel above the length of the input gives the same result, so `decode` is the unbounded recursion
  of the source.
-/
import Mathlib.Tactic
import Iotmp.Core.Pson

namespace Iotmp

/-! ## Readers that moved forward -/

namespace MemoryReader

/-- `r'` is `r` after reading some bytes -/
def Reads (r r' : MemoryReader) : Prop := ∃ bs, r.rest = bs ++ r'.rest ∧ r'.bytesRead = r.bytesRead + bs.length

theorem Reads.refl (r : MemoryReader) : r.Reads r := ⟨[], rfl, rfl⟩

theorem Reads.trans {r r' r'' : MemoryReader} (h : r.Reads r') (h' : r'.Reads r'') : r.Reads r'' := by
  obtain ⟨as, ha, hna⟩ := h
  obtain ⟨bs, hb, hnb⟩ := h'
  refine ⟨as ++ bs, ?_, ?_⟩
  · rw [ha, hb, List.append_assoc]
  · rw [hnb, hna, List.length_append, Nat.add_assoc]

theorem Reads.length_le {r r' : MemoryReader} (h : r.Reads r') : r'.rest.length ≤ r.rest.length := by
  obtain ⟨bs, hb, -⟩ := h
  rw [hb, List.length_append]
  exact Nat.le_add_left _ _

theorem readByte_reads {r r' : MemoryReader} {b : UInt8} (h : r.readByte = some (b, r')) : r.Reads r' := by
  obtain ⟨rest, n⟩ := r
  cases rest with
  | nil => simp at h
  | cons c cs => simp only [readByte_cons, Option.some.injEq, Prod.mk.injEq] at h; exact ⟨[c], by simp [← h.2]⟩

theorem readByte_length {r r' : MemoryReader} {b : UInt8} (h : r.readByte = some (b, r')) :
    r'.rest.length < r.rest.length := by
  obtain ⟨rest, n⟩ := r
  cases rest with
  | nil => simp at h
  | cons c cs => simp only [readByte_cons, Option.some.injEq, Prod.mk.injEq] at h; simp [← h.2]

theorem read_reads {r r' : MemoryReader} {size : ℕ} {bs : Bytes} (h : r.read size = some (bs, r')) : r.Reads r' := by
  unfold read at h
  split_ifs at h with hs
  simp only [Option.some.injEq, Prod.mk.injEq] at h
  refine ⟨r.rest.take size, ?_, ?_⟩
  · rw [← h.2, List.take_append_drop]
  · rw [← h.2, List.length_take, Nat.min_eq_left hs]

end MemoryReader

namespace Pson

open MemoryReader (Reads)

/-! ## Varints and tags -/

theorem pbDecodeVarintLoop_reads (width rounds bitPos varint : ℕ) (r : MemoryReader) {v : ℕ} {r' : MemoryReader}
    (h : pbDecodeVarintLoop width rounds bitPos varint r = some (v, r')) :
    r.Reads r' ∧ r'.rest.length < r.rest.length := by
  induction rounds generalizing bitPos varint r with
  | zero => simp [pbDecodeVarintLoop] at h
  | succ rounds ih =>
    simp only [pbDecodeVarintLoop] at h
    cases hb : r.readByte with
    | none => simp [hb] at h
    | some p =>
      obtain ⟨b, r1⟩ := p
      have hr := MemoryReader.readByte_reads hb
      have hl := MemoryReader.readByte_length hb
      simp only [hb] at h
      split_ifs at h with hw hlast
      · obtain ⟨hr', hl'⟩ := ih _ _ _ h
        exact ⟨hr.trans hr', hl'.trans hl⟩
      · simp only [Option.some.injEq, Prod.mk.injEq] at h
        exact h.2 ▸ ⟨hr, hl⟩

theorem pbDecodeVarint_reads {width : ℕ} {r r' : MemoryReader} {v : ℕ} (h : pbDecodeVarint width r = some (v, r')) :
    r.Reads r' := (pbDecodeVarintLoop_reads _ _ _ _ _ h).1

theorem pbDecodeVarint_lt {width : ℕ} {r r' : MemoryReader} {v : ℕ} (h : pbDecodeVarint width r = some (v, r')) :
    r'.rest.length < r.rest.length := (pbDecodeVarintLoop_reads _ _ _ _ _ h).2

theorem pbDecodeTag_reads {r r' : MemoryReader} {t : PsonWireType × ℕ} (h : pbDecodeTag r = some (t, r')) :
    r.Reads r' ∧ r'.rest.length < r.rest.length := by
  unfold pbDecodeTag at h
  cases hb : r.readByte with
  | none => simp [hb] at h
  | some p =>
    obtain ⟨b, r1⟩ := p
    have hr := MemoryReader.readByte_reads hb
    have hl := MemoryReader.readByte_length hb
    simp only [hb] at h
    split_ifs at h with hv
    · cases hvar : pbDecodeVarint64 r1 with
      | none => simp [hvar] at h
      | some q =>
        obtain ⟨v, r2⟩ := q
        simp only [hvar, Option.some.injEq, Prod.mk.injEq] at h
        exact h.2 ▸ ⟨hr.trans (pbDecodeVarint_reads hvar), (pbDecodeVarint_lt hvar).trans hl⟩
    · simp only [Option.some.injEq, Prod.mk.injEq] at h
      exact h.2 ▸ ⟨hr, hl⟩

theorem readSized_reads {size : ℕ} {r r' : MemoryReader} {bs : Bytes} (h : readSized size r = some (bs, r')) :
    r.Reads r' := by
  unfold readSized at h
  split_ifs at h
  exact MemoryReader.read_reads h

theorem decodeRaw_reads (size : ℕ) (ofBytes : Bytes → Json) (r : MemoryReader) (value : Json) :
    r.Reads (decodeRaw size ofBytes r value).2.2 := by
  unfold decodeRaw
  cases h : r.read size with
  | none => exact Reads.refl r
  | some p => exact MemoryReader.read_reads h

/-! ## Pairs, objects and arrays over a nested decoder -/

section

variable {decode decode' : MemoryReader → Json → Decoded Json}

/-- a decoder that only moves its reader forward -/
def Advances (decode : MemoryReader → Json → Decoded Json) : Prop :=
  ∀ (r : MemoryReader) (value : Json), r.Reads (decode r value).2.2

theorem decodePair_reads (hd : Advances decode) (object : List (Bytes × Json))
    (r : MemoryReader) : r.Reads (decodePair decode object r).2.2 := by
  unfold decodePair
  split
  · next keySize r1 ht =>
    have h1 := (pbDecodeTag_reads ht).1
    cases hk : readSized keySize r1 with
    | none => exact h1
    | some p => exact h1.trans ((readSized_reads hk).trans (hd _ _))
  · next ht => exact (pbDecodeTag_reads ht).1
  · exact Reads.refl r

theorem decodeObject_reads (hd : Advances decode) (size : ℕ) (object : List (Bytes × Json))
    (r : MemoryReader) : r.Reads (decodeObject decode size object r).2.2 := by
  induction size generalizing object r with
  | zero => exact Reads.refl r
  | succ size ih =>
    have hp := decodePair_reads hd object r
    rcases h : decodePair decode object r with ⟨_ | _, object', r'⟩ <;> rw [h] at hp <;> simp only [decodeObject, h]
    · exact hp
    · exact hp.trans (ih object' r')

theorem decodeArray_reads (hd : Advances decode) (size : ℕ) (array : List Json)
    (r : MemoryReader) : r.Reads (decodeArray decode size array r).2.2 := by
  induction size generalizing array r with
  | zero => exact Reads.refl r
  | succ size ih =>
    have hv := hd r Json.null
    rcases h : decode r .null with ⟨_ | _, value, r'⟩ <;> rw [h] at hv <;> simp only [decodeArray, h]
    · exact hv
    · exact hv.trans (ih _ r')

/-- two nested decoders that agree on every reader with at most `n` bytes left -/
def AgreeUpTo (n : ℕ) (decode decode' : MemoryReader → Json → Decoded Json) : Prop :=
  ∀ r value, r.rest.length ≤ n → decode r value = decode' r value

theorem decodePair_congr {n : ℕ} (h : AgreeUpTo n decode decode') (object : List (Bytes × Json)) (r : MemoryReader)
    (hr : r.rest.length ≤ n) : decodePair decode object r = decodePair decode' object r := by
  unfold decodePair
  split
  · next keySize r1 ht =>
    have h1 := (pbDecodeTag_reads ht).1.length_le
    cases hk : readSized keySize r1 with
    | none => rfl
    | some p =>
      have h2 := (readSized_reads hk).length_le
      simp only [h p.2 _ (by omega)]
  · rfl
  · rfl

theorem decodeObject_congr {n : ℕ} (h : AgreeUpTo n decode decode')
    (hd : Advances decode') (size : ℕ) (object : List (Bytes × Json)) (r : MemoryReader)
    (hr : r.rest.length ≤ n) : decodeObject decode size object r = decodeObject decode' size object r := by
  induction size generalizing object r with
  | zero => rfl
  | succ size ih =>
    have hp := (decodePair_reads hd object r).length_le
    simp only [decodeObject, decodePair_congr h object r hr]
    rcases hq : decodePair decode' object r with ⟨_ | _, object', r'⟩
    · rfl
    · rw [hq] at hp
      exact ih object' r' (hp.trans hr)

theorem decodeArray_congr {n : ℕ} (h : AgreeUpTo n decode decode')
    (hd : Advances decode') (size : ℕ) (array : List Json) (r : MemoryReader)
    (hr : r.rest.length ≤ n) : decodeArray decode size array r = decodeArray decode' size array r := by
  induction size generalizing array r with
  | zero => rfl
  | succ size ih =>
    have hv := (hd r Json.null).length_le
    simp only [decodeArray, h r Json.null hr]
    rcases hq : decode' r Json.null with ⟨_ | _, value, r'⟩
    · rfl
    · rw [hq] at hv
      exact ih _ r' (hv.trans hr)

end

/-! ## Whole values -/

/-- a decode, failed or not, only moves the reader forward -/
theorem decodeFuel_reads (fuel : ℕ) : Advances (decodeFuel fuel) := by
  induction fuel with
  | zero => exact fun r value => Reads.refl r
  | succ fuel ih =>
    intro r value
    unfold decodeFuel
    split
    case h_1 => exact Reads.refl r
    case h_4 ht => exact (pbDecodeTag_reads ht).1.trans (decodeRaw_reads _ _ _ _)
    case h_5 ht => exact (pbDecodeTag_reads ht).1.trans (decodeRaw_reads _ _ _ _)
    case h_11 size r1 ht =>
      cases hs : readSized size r1 with
      | none => exact (pbDecodeTag_reads ht).1
      | some p => exact (pbDecodeTag_reads ht).1.trans (readSized_reads hs)
    case h_12 size r1 ht =>
      cases hs : readSized size r1 with
      | none => exact (pbDecodeTag_reads ht).1
      | some p => exact (pbDecodeTag_reads ht).1.trans (readSized_reads hs)
    case h_13 ht => exact (pbDecodeTag_reads ht).1.trans (decodeObject_reads ih _ _ _)
    case h_14 ht => exact (pbDecodeTag_reads ht).1.trans (decodeArray_reads ih _ _ _)
    all_goals next ht => exact (pbDecodeTag_reads ht).1

/-- **Fuel is no bound.** Every fuel above the number of unread bytes gives what `decode` gives. -/
theorem decodeFuel_eq (fuel : ℕ) (r : MemoryReader) (value : Json) (h : r.rest.length < fuel) :
    decodeFuel fuel r value = decode r value := by
  have agree : ∀ f g r value, r.rest.length < f → r.rest.length < g → decodeFuel f r value = decodeFuel g r value := by
    intro f
    induction f with
    | zero => intro g r value hf; exact absurd hf (Nat.not_lt_zero _)
    | succ f ih =>
      intro g r value hf hg
      obtain ⟨g, rfl⟩ : ∃ k, g = k + 1 := ⟨g - 1, by omega⟩
      -- past the tag fewer bytes are left than either fuel
      have hnest : ∀ t r1, pbDecodeTag r = some (t, r1) → AgreeUpTo r1.rest.length (decodeFuel f) (decodeFuel g) := by
        intro t r1 ht r2 v hr2
        have := (pbDecodeTag_reads ht).2
        exact ih g r2 v (by omega) (by omega)
      unfold decodeFuel
      rcases ht : pbDecodeTag r with _ | ⟨⟨wireType, payload⟩, r1⟩
      · rfl
      · cases wireType with
        | mapT => simp only [decodeObject_congr (hnest _ _ ht) (decodeFuel_reads g) payload [] r1 le_rfl]
        | arrayT => simp only [decodeArray_congr (hnest _ _ ht) (decodeFuel_reads g) payload [] r1 le_rfl]
        | floatingT => rcases payload with _ | _ | _ <;> rfl
        | discreteT => rcases payload with _ | _ | _ | _ <;> rfl
        | _ => rfl
  exact agree fuel _ r value h (Nat.lt_succ_self _)

theorem decode_reads : Advances decode := fun r value => decodeFuel_reads _ r value

end Pson

end Iotmp
