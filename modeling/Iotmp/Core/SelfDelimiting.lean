/-
PSON is self-delimiting (`pson_decoder.hpp`: `decode`; `iotmp_adapters.hpp`: `memory_reader::read`).

A read that does not fit fails, one of length zero included that begins behind the end, and every failure fails the
whole decode. So what a decode returns depends on the bytes it consumed only, and on all of them.

- `Delimited f`: what the reader `f` returns depends only on the bytes it consumed. `Delimited.bind` composes readers.
- `Accepts decode`: the same of a decoder into a value, whatever the value was. `decodeFuel_accepts`: the induction on
  the nesting; `decodeObject_accepts`, `decodeArray_accepts` have the one on the elements read so far.
- `decode_self_delimiting`: the bytes consumed decide the result, and no proper prefix of them is accepted.
Witness: `truncated_string`.
-/
import Mathlib.Tactic
import Iotmp.Core.WireFields

namespace Iotmp

/-! ## Readers -/

/-- **What the reader returns depends only on the bytes it consumed**, not on what follows them. -/
def Delimited {α : Type} (f : MemoryReader → Option (α × MemoryReader)) : Prop :=
  ∀ r a r', f r = some (a, r') → ∃ used, r.rest = used ++ r'.rest ∧ r'.bytesRead = r.bytesRead + used.length ∧
    ∀ tail n, f ⟨used ++ tail, n⟩ = some (a, ⟨tail, n + used.length⟩)

namespace Delimited

variable {α β : Type} {f : MemoryReader → Option (α × MemoryReader)}

theorem returns (a : α) : Delimited fun r => some (a, r) := by
  rintro r b r' h
  obtain ⟨rfl, rfl⟩ := Prod.mk.inj (Option.some.inj h)
  exact ⟨[], rfl, rfl, fun tail n => rfl⟩

theorem fails : Delimited fun _ => (none : Option (α × MemoryReader)) := fun _ _ _ h => absurd h (by simp)

/-- one reader after the other -/
theorem bind (hf : Delimited f) {g : α → MemoryReader → Option (β × MemoryReader)} (hg : ∀ a, Delimited (g a)) :
    Delimited fun r => (f r).bind fun p => g p.1 p.2 := by
  intro r b r' h
  obtain ⟨⟨a, r1⟩, ha, hb⟩ := Option.bind_eq_some_iff.1 h
  obtain ⟨used, hrest, hcount, hused⟩ := hf r a r1 ha
  obtain ⟨used', hrest', hcount', hused'⟩ := hg a r1 b r' hb
  refine ⟨used ++ used', ?_, ?_, fun tail n => ?_⟩
  · rw [hrest, hrest', List.append_assoc]
  · rw [hcount', hcount, List.length_append, Nat.add_assoc]
  · simp only [List.append_assoc, hused, Option.bind_some, hused', List.length_append, Nat.add_assoc]

theorem congr {g : MemoryReader → Option (α × MemoryReader)} (hf : Delimited f) (h : ∀ r, g r = f r) : Delimited g :=
  (funext h : g = f) ▸ hf

/-- **A proper prefix of the bytes consumed is not accepted.** -/
theorem prefix_refused (hf : Delimited f) {before after : Bytes} {a : α} {n n' : ℕ}
    (h : f ⟨before ++ after, n⟩ = some (a, ⟨[], n'⟩)) (hafter : after ≠ []) (m : ℕ) : f ⟨before, m⟩ = none := by
  rw [Option.eq_none_iff_forall_ne_some]
  rintro ⟨b, ⟨rest, k⟩⟩ hprefix
  obtain ⟨used, hrest, -, hused⟩ := hf _ b _ hprefix
  obtain rfl : before = used ++ rest := hrest
  have hlong := hused (rest ++ after) n
  rw [← List.append_assoc, h] at hlong
  have hnil : [] = rest ++ after := congrArg MemoryReader.rest (Prod.mk.inj (Option.some.inj hlong)).2
  exact hafter (List.append_eq_nil_iff.1 hnil.symm).2

end Delimited

/-! ## memory_reader -/

namespace MemoryReader

theorem readByte_delimited : Delimited readByte := by
  rintro ⟨bs, n⟩ b r' h
  rcases bs with _ | ⟨c, bs⟩
  · exact absurd h (by simp)
  · obtain ⟨rfl, rfl⟩ := Prod.mk.inj (Option.some.inj h)
    exact ⟨[c], rfl, rfl, fun tail m => rfl⟩

/-- a read of any size, zero included -/
theorem read_delimited (size : ℕ) : Delimited fun r => read r size := by
  intro r bs r' h
  simp only [read] at h
  split_ifs at h with hsize
  obtain ⟨rfl, rfl⟩ := Prod.mk.inj (Option.some.inj h)
  have hlength : (r.rest.take size).length = size := by rw [List.length_take, Nat.min_eq_left hsize]
  refine ⟨r.rest.take size, (List.take_append_drop size r.rest).symm, by rw [hlength], fun tail n => ?_⟩
  have happend := read_append (r.rest.take size) tail n
  rwa [hlength] at happend ⊢

end MemoryReader

namespace Pson

/-! ## Tags -/

theorem pbDecodeVarintLoop_delimited (width rounds bitPos varint : ℕ) :
    Delimited (pbDecodeVarintLoop width rounds bitPos varint) := by
  induction rounds generalizing bitPos varint with
  | zero => exact Delimited.fails
  | succ rounds ih =>
    have hbyte : ∀ byte : UInt8, Delimited fun r => if width ≤ bitPos then none
        else if 0x80 ≤ byte then
          pbDecodeVarintLoop width rounds (bitPos + 7) (varint ||| ((byte &&& 0x7F).toNat <<< bitPos) % 2 ^ width) r
        else some (varint ||| ((byte &&& 0x7F).toNat <<< bitPos) % 2 ^ width, r) := by
      intro byte
      split_ifs
      · exact Delimited.fails
      · exact ih _ _
      · exact Delimited.returns _
    refine (MemoryReader.readByte_delimited.bind hbyte).congr fun r => ?_
    rw [pbDecodeVarintLoop]
    rcases r.readByte with _ | ⟨byte, r⟩
    · rfl
    · rfl

theorem pbDecodeTag_delimited : Delimited pbDecodeTag := by
  have hbyte : ∀ byte : UInt8, Delimited fun r => if (byte &&& 0x1f).toNat = 0x1f then
        (pbDecodeVarint64 r).bind fun p => some ((PsonWireType.ofCode (byte >>> 5), p.1), p.2)
      else some ((PsonWireType.ofCode (byte >>> 5), (byte &&& 0x1f).toNat), r) := by
    intro byte
    split_ifs
    · exact (pbDecodeVarintLoop_delimited _ _ _ _).bind fun value => Delimited.returns _
    · exact Delimited.returns _
  refine (MemoryReader.readByte_delimited.bind hbyte).congr fun r => ?_
  rw [pbDecodeTag]
  rcases r.readByte with _ | ⟨byte, r⟩
  · rfl
  · simp only [Option.bind_some]
    split_ifs
    · rcases pbDecodeVarint64 r with _ | p
      · rfl
      · rfl
    · rfl

theorem readSized_delimited (size : ℕ) : Delimited (readSized size) := by
  by_cases hsize : Json.UINT32_MAX < size
  · exact Delimited.fails.congr fun r => by rw [readSized, if_pos hsize]
  · exact (MemoryReader.read_delimited size).congr fun r => by rw [readSized, if_neg hsize]

/-! ## Decoders into a value -/

/-- what a decode returns if it succeeds -/
def accepted {α : Type} (d : Decoded α) : Option (α × MemoryReader) := if d.1 then some d.2 else none

theorem accepted_iff {α : Type} {d : Decoded α} {v : α} {r : MemoryReader} :
    accepted d = some (v, r) ↔ d = (true, v, r) := by
  obtain ⟨_ | _, w, r'⟩ := d
  · simp [accepted]
  · simp [accepted]

/-- the decoder into any value is delimited -/
def Accepts (decode : MemoryReader → Json → Decoded Json) : Prop := ∀ old, Delimited fun r => accepted (decode r old)

section

variable {decode : MemoryReader → Json → Decoded Json}

theorem decodePair_accepts (hd : Accepts decode) (object : List (Bytes × Json)) :
    Delimited fun r => accepted (decodePair decode object r) := by
  have hkey : ∀ key : Bytes, Delimited fun r =>
      (accepted (decode r ((SortedMap.find key object).getD .null))).bind fun p =>
        some (SortedMap.insert key p.1 object, p.2) := fun key =>
    (hd _).bind fun value => Delimited.returns (SortedMap.insert key value object)
  have htag : ∀ t : PsonWireType × ℕ, Delimited fun r => if t.1 = .stringT then
      (readSized t.2 r).bind fun p =>
        (accepted (decode p.2 ((SortedMap.find p.1 object).getD .null))).bind fun q =>
          some (SortedMap.insert p.1 q.1 object, q.2)
      else none := by
    intro t
    split_ifs
    · exact (readSized_delimited t.2).bind hkey
    · exact Delimited.fails
  refine (pbDecodeTag_delimited.bind htag).congr fun r => ?_
  rw [decodePair]
  rcases pbDecodeTag r with _ | ⟨⟨wireType, size⟩, r⟩
  · rfl
  · by_cases htype : wireType = .stringT
    · subst htype
      simp only [Option.bind_some, if_true]
      rcases readSized size r with _ | ⟨key, r⟩
      · rfl
      · simp only [Option.bind_some]
        rcases decode r ((SortedMap.find key object).getD .null) with ⟨_ | _, value, r'⟩
        · rfl
        · rfl
    · simp only [Option.bind_some, if_neg htype]
      cases wireType with
      | stringT => exact absurd rfl htype
      | _ => rfl

/-- the pairs of a map, whatever was read of it before -/
theorem decodeObject_accepts (hd : Accepts decode) (size : ℕ) (object : List (Bytes × Json)) :
    Delimited fun r => accepted (decodeObject decode size object r) := by
  induction size generalizing object with
  | zero => exact Delimited.returns object
  | succ size ih =>
    refine ((decodePair_accepts hd object).bind ih).congr fun r => ?_
    rw [decodeObject]
    rcases decodePair decode object r with ⟨_ | _, object', r'⟩
    · rfl
    · rfl

theorem decodeArray_accepts (hd : Accepts decode) (size : ℕ) (array : List Json) :
    Delimited fun r => accepted (decodeArray decode size array r) := by
  induction size generalizing array with
  | zero => exact Delimited.returns array
  | succ size ih =>
    refine ((hd .null).bind fun value => ih (array ++ [value])).congr fun r => ?_
    rw [decodeArray]
    rcases decode r .null with ⟨_ | _, value, r'⟩
    · rfl
    · rfl

end

theorem decodeRaw_accepts (size : ℕ) (ofBytes : Bytes → Json) (value : Json) :
    Delimited fun r => accepted (decodeRaw size ofBytes r value) := by
  refine ((MemoryReader.read_delimited size).bind fun bs => Delimited.returns (ofBytes bs)).congr fun r => ?_
  rw [decodeRaw]
  rcases r.read size with _ | p
  · rfl
  · rfl

/-! ## Values -/

/-- what a decode accepts behind a tag -/
def acceptedItem (fuel : ℕ) : PsonWireType × ℕ → MemoryReader → Option (Json × MemoryReader)
  | (.unsignedT, payload), r => some (.numberUnsigned (UInt64.ofNat payload), r)
  | (.signedT, payload), r => some (.numberInteger (-(UInt64.ofNat payload).toInt64), r)
  | (.floatingT, 0), r =>
    accepted (decodeRaw 4 (fun bs => .numberFloat (Json.widen (UInt32.ofNat (ofLeBytes bs)))) r .null)
  | (.floatingT, 1), r => accepted (decodeRaw 8 (fun bs => .numberFloat (UInt64.ofNat (ofLeBytes bs))) r .null)
  | (.floatingT, _), _ => none
  | (.discreteT, 0), r => some (.boolean false, r)
  | (.discreteT, 1), r => some (.boolean true, r)
  | (.discreteT, 2), r => some (.null, r)
  | (.discreteT, _), _ => none
  | (.stringT, size), r => (readSized size r).bind fun p => some (.string p.1, p.2)
  | (.bytesT, size), r => (readSized size r).bind fun p => some (.binary p.1 none, p.2)
  | (.mapT, size), r => (accepted (decodeObject (decodeFuel fuel) size [] r)).bind fun p => some (.object p.1, p.2)
  | (.arrayT, size), r => (accepted (decodeArray (decodeFuel fuel) size [] r)).bind fun p => some (.array p.1, p.2)

theorem accepted_decodeRaw (size : ℕ) (ofBytes : Bytes → Json) (r : MemoryReader) (old old' : Json) :
    accepted (decodeRaw size ofBytes r old) = accepted (decodeRaw size ofBytes r old') := by
  unfold decodeRaw
  rcases r.read size with _ | p
  · rfl
  · rfl

theorem accepted_decodeFuel (fuel : ℕ) (r : MemoryReader) (old : Json) :
    accepted (decodeFuel (fuel + 1) r old) = (pbDecodeTag r).bind fun p => acceptedItem fuel p.1 p.2 := by
  rw [decodeFuel]
  rcases pbDecodeTag r with _ | ⟨⟨wireType, payload⟩, r⟩
  · rfl
  · rw [Option.bind_some]
    cases wireType with
    | floatingT =>
      rcases payload with _ | _ | payload
      · exact accepted_decodeRaw _ _ _ _ _
      · exact accepted_decodeRaw _ _ _ _ _
      · rfl
    | discreteT => rcases payload with _ | _ | _ | payload <;> rfl
    | stringT =>
      simp only [acceptedItem]
      rcases readSized payload r with _ | p
      · rfl
      · rfl
    | bytesT =>
      simp only [acceptedItem]
      rcases readSized payload r with _ | p
      · rfl
      · rfl
    | mapT =>
      simp only [acceptedItem]
      rcases decodeObject (decodeFuel fuel) payload [] r with ⟨_ | _, ms, r'⟩
      · rfl
      · rfl
    | arrayT =>
      simp only [acceptedItem]
      rcases decodeArray (decodeFuel fuel) payload [] r with ⟨_ | _, es, r'⟩
      · rfl
      · rfl
    | _ => rfl

theorem acceptedItem_delimited {fuel : ℕ} (hd : Accepts (decodeFuel fuel)) (t : PsonWireType × ℕ) :
    Delimited (acceptedItem fuel t) := by
  obtain ⟨wireType, payload⟩ := t
  cases wireType with
  | unsignedT => exact Delimited.returns _
  | signedT => exact Delimited.returns _
  | floatingT =>
    rcases payload with _ | _ | payload
    · exact decodeRaw_accepts 4 _ .null
    · exact decodeRaw_accepts 8 _ .null
    · exact Delimited.fails
  | discreteT =>
    rcases payload with _ | _ | _ | payload
    · exact Delimited.returns _
    · exact Delimited.returns _
    · exact Delimited.returns _
    · exact Delimited.fails
  | stringT => exact (readSized_delimited payload).bind fun s => Delimited.returns (Json.string s)
  | bytesT => exact (readSized_delimited payload).bind fun data => Delimited.returns (Json.binary data none)
  | mapT => exact (decodeObject_accepts hd payload []).bind fun ms => Delimited.returns (Json.object ms)
  | arrayT => exact (decodeArray_accepts hd payload []).bind fun es => Delimited.returns (Json.array es)

/-- **Every decode is delimited**, by induction on the nesting. -/
theorem decodeFuel_accepts (fuel : ℕ) : Accepts (decodeFuel fuel) := by
  induction fuel with
  | zero => exact fun old => Delimited.fails
  | succ fuel ih =>
    intro old
    exact (pbDecodeTag_delimited.bind (acceptedItem_delimited ih)).congr fun r => accepted_decodeFuel fuel r old

theorem decode_delimited {r r' : MemoryReader} {old v : Json} (h : decode r old = (true, v, r')) :
    ∃ used, r.rest = used ++ r'.rest ∧ r'.bytesRead = r.bytesRead + used.length ∧
      ∀ tail n old', decode ⟨used ++ tail, n⟩ old' = (true, v, ⟨tail, n + used.length⟩) := by
  obtain ⟨used, hrest, hcount, -⟩ := decodeFuel_accepts _ old r v r' (accepted_iff.2 h)
  refine ⟨used, hrest, hcount, fun tail n old' => ?_⟩
  -- one fuel for both inputs
  have hfuel : decodeFuel (r.rest.length + (used ++ tail).length + 1) r old = (true, v, r') := by
    rw [decodeFuel_eq _ _ _ (by omega), h]
  obtain ⟨used', hrest', -, hused'⟩ := decodeFuel_accepts _ old r v r' (accepted_iff.2 hfuel)
  obtain rfl : used = used' := List.append_cancel_right (hrest.symm.trans hrest')
  have hvalue := accepted_iff.1 (hused' tail n)
  rw [decodeFuel_eq _ _ _ (by simp only; omega)] at hvalue
  exact decodeFuel_old _ _ _ _ _ _ hvalue

theorem decode_accepts : Accepts decode := by
  intro old r v r' h
  obtain ⟨used, hrest, hcount, hused⟩ := decode_delimited (accepted_iff.1 h)
  exact ⟨used, hrest, hcount, fun tail n => accepted_iff.2 (hused tail n old)⟩

/-- **PSON is self-delimiting.** The bytes a decode consumed decide its result, on any input that begins with them and
into any value, and no proper prefix of them is accepted. -/
theorem decode_self_delimiting (b : Bytes) (old v : Json) (r : MemoryReader)
    (h : decode (MemoryReader.ofBuffer b) old = (true, v, r)) :
    (∀ b' old', b'.take r.bytesRead = b.take r.bytesRead →
      ∃ r', decode (MemoryReader.ofBuffer b') old' = (true, v, r') ∧ r'.bytesRead = r.bytesRead) ∧
    ∀ k < r.bytesRead, ∀ old', (decode (MemoryReader.ofBuffer (b.take k)) old').1 = false := by
  obtain ⟨used, hrest, hcount, hused⟩ := decode_delimited h
  obtain rfl : b = used ++ r.rest := hrest
  have hlength : r.bytesRead = used.length := hcount.trans (Nat.zero_add _)
  rw [hlength]
  refine ⟨fun b' old' hagree => ?_, fun k hk old' => ?_⟩
  · rw [List.take_left' rfl] at hagree
    have hb' : b' = used ++ b'.drop used.length := by
      conv_lhs => rw [← List.take_append_drop used.length b', hagree]
    rw [hb']
    exact ⟨_, hused _ 0 old', Nat.zero_add _⟩
  · have hwhole : accepted (decode ⟨used.take k ++ used.drop k, 0⟩ old') = some (v, ⟨[], 0 + used.length⟩) := by
      rw [List.take_append_drop, accepted_iff]
      have hnil := hused [] 0 old'
      rwa [List.append_nil] at hnil
    have hdrop : used.drop k ≠ [] := fun hnil => absurd (List.drop_eq_nil_iff.1 hnil) (not_le.2 hk)
    have hnone := (decode_accepts old').prefix_refused hwhole hdrop 0
    rw [List.take_append_of_le_length hk.le]
    rcases hd : decode (MemoryReader.ofBuffer (used.take k)) old' with ⟨_ | _, w, r'⟩
    · rfl
    · exact absurd (hnone.symm.trans (accepted_iff.2 hd)) (by simp)

/-- the string `"xy"` with two bytes behind it -/
theorem truncated_string :
    (decode (MemoryReader.ofBuffer [0x82, 0x78, 0x79, 0x00]) .null).1 = true ∧
      (decode (MemoryReader.ofBuffer [0x82, 0x78]) .null).1 = false :=
  ⟨by rfl, (decode_self_delimiting [0x82, 0x78, 0x79, 0x00] .null (.string [0x78, 0x79]) _ rfl).2 2 (by decide) .null⟩

end Pson

end Iotmp
