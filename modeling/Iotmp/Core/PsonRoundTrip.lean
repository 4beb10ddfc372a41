/-
PSON round trip: what the decoder makes of what the encoder wrote.

- `arrive v`: the value at the other end. A string or a key is cut at its first NUL, since `pb_encode_string` takes a C
  string; a non-negative signed integer arrives as an unsigned one; a key that repeats after the cut overwrites.
- `decodeFuel_bytes`: decoding `bytes v` followed by anything returns true with `arrive v` and leaves what followed, for
  every portable value.
- `arrive_same_iff`: `arrive v` equals `v`, integers compared numerically, exactly when no string and no key of `v`
  holds a NUL.
- `pson_round_trip_iff`: the round trip holds iff `v` is NUL-free.
Witness: `pson_nul_truncated`, the string `"a\0b"` arrives as `"a"`.
-/
import Mathlib.Tactic
import Mathlib.Data.List.TakeWhile
import Iotmp.Core.PsonBytes

namespace Iotmp.Pson

open Json

/-! ## The value at the other end -/

mutual

def arrive : Json → Json
  | .numberInteger v => if v < 0 then .numberInteger v else .numberUnsigned v.toUInt64
  | .string s => .string (cStr s)
  | .binary data _ => .binary data none
  | .array es => .array (arriveElements es)
  | .object ms => .object (arriveMembers [] ms)
  | v => v

def arriveElements : List Json → List Json
  | [] => []
  | e :: es => arrive e :: arriveElements es

/-- the members read so far, and those to come -/
def arriveMembers : List (Bytes × Json) → List (Bytes × Json) → List (Bytes × Json)
  | acc, [] => acc
  | acc, (key, value) :: ms => arriveMembers (SortedMap.insert (cStr key) (arrive value) acc) ms

end

theorem arriveElements_eq (es : List Json) : arriveElements es = es.map arrive := by
  induction es with
  | nil => rfl
  | cons e es ih => rw [arriveElements, ih, List.map_cons]

theorem arriveMembers_eq (acc ms : List (Bytes × Json)) :
    arriveMembers acc ms = ms.foldl (fun o m => SortedMap.insert (cStr m.1) (arrive m.2) o) acc := by
  induction ms generalizing acc with
  | nil => rfl
  | cons m ms ih => obtain ⟨k, v⟩ := m; rw [arriveMembers, ih, List.foldl_cons]

/-! ## Decoding what was encoded -/

theorem portable_binary {data : Bytes} {subtype : Option UInt64} :
    Portable (.binary data subtype) ↔ subtype = none ∧ data.length ≤ UINT32_MAX := by
  simp [Portable, every, portableNode]

theorem wellFormedNode_object {ms : List (Bytes × Json)} :
    wellFormedNode (.object ms) = true ↔ ms.length < 2 ^ 64 ∧ SortedMap.Ordered ms := by
  simp [wellFormedNode]

theorem length_cStr_le (s : Bytes) : (cStr s).length ≤ s.length := (List.takeWhile_prefix _).length_le

theorem toNat_ofNat_of_le {k : ℕ} (h : k ≤ UINT32_MAX) : (UInt64.ofNat k).toNat = k := by
  have : UINT32_MAX < 2 ^ 64 := by decide
  rw [UInt64.toNat_ofNat', Nat.mod_eq_of_lt (by omega)]

theorem readSized_append (s tl : Bytes) (n : ℕ) (h : s.length ≤ UINT32_MAX) :
    readSized s.length ⟨s ++ tl, n⟩ = some (s, ⟨tl, n + s.length⟩) := by
  rw [readSized, if_neg (not_lt.2 h), MemoryReader.read_append]

theorem toInt64_neg_neg (v : Int64) : -(UInt64.ofNat (-v).toUInt64.toNat).toInt64 = v := by
  rw [UInt64.ofNat_toNat]
  simp

theorem decodePair_bytes (decode : MemoryReader → Json → Decoded Json) (key : Bytes) (value : Json)
    (acc : List (Bytes × Json)) (tl : Bytes) (n : ℕ) (hk : key.length ≤ UINT32_MAX)
    (hd : ∀ n old, decode ⟨bytes value ++ tl, n⟩ old = (true, arrive value, ⟨tl, n + (bytes value).length⟩)) :
    decodePair decode acc ⟨stringBytes key ++ (bytes value ++ tl), n⟩ =
      (true, SortedMap.insert (cStr key) (arrive value) acc,
        ⟨tl, n + (stringBytes key ++ bytes value).length⟩) := by
  have hlen : (cStr key).length ≤ UINT32_MAX := (length_cStr_le key).trans hk
  simp only [stringBytes, List.append_assoc, decodePair, pbDecodeTag_tagBytes, toNat_ofNat_of_le hlen,
    readSized_append _ _ _ hlen, hd, List.length_append, Nat.add_assoc]

theorem decodeObject_bytes (decode : MemoryReader → Json → Decoded Json) (ms acc : List (Bytes × Json)) (tl : Bytes)
    (n : ℕ) (hk : ∀ m ∈ ms, m.1.length ≤ UINT32_MAX)
    (hd : ∀ m ∈ ms, ∀ tl n old, decode ⟨bytes m.2 ++ tl, n⟩ old = (true, arrive m.2, ⟨tl, n + (bytes m.2).length⟩)) :
    decodeObject decode ms.length acc ⟨bytesMembers ms ++ tl, n⟩ =
      (true, arriveMembers acc ms, ⟨tl, n + (bytesMembers ms).length⟩) := by
  induction ms generalizing acc n with
  | nil => rfl
  | cons m ms ih =>
    obtain ⟨key, value⟩ := m
    obtain ⟨hk1, hk2⟩ := List.forall_mem_cons.1 hk
    obtain ⟨hd1, hd2⟩ := List.forall_mem_cons.1 hd
    have hpair := decodePair_bytes decode key value acc (bytesMembers ms ++ tl) n hk1 fun n old => hd1 _ n old
    simp only [bytesMembers, List.append_assoc, List.length_cons, decodeObject, hpair, ih _ _ hk2 hd2, arriveMembers,
      List.length_append, Nat.add_assoc]

theorem decodeArray_bytes (decode : MemoryReader → Json → Decoded Json) (es acc : List Json) (tl : Bytes) (n : ℕ)
    (hd : ∀ e ∈ es, ∀ tl n old, decode ⟨bytes e ++ tl, n⟩ old = (true, arrive e, ⟨tl, n + (bytes e).length⟩)) :
    decodeArray decode es.length acc ⟨bytesElements es ++ tl, n⟩ =
      (true, acc ++ arriveElements es, ⟨tl, n + (bytesElements es).length⟩) := by
  induction es generalizing acc n with
  | nil => simp [decodeArray, arriveElements, bytesElements]
  | cons e es ih =>
    obtain ⟨hd1, hd2⟩ := List.forall_mem_cons.1 hd
    simp only [bytesElements, List.append_assoc, List.length_cons, decodeArray, hd1, ih _ _ hd2, arriveElements,
      List.length_append, Nat.add_assoc, List.cons_append, List.nil_append]

theorem length_le_bytesElements {es : List Json} {e : Json} (h : e ∈ es) :
    (bytes e).length ≤ (bytesElements es).length := by
  induction es with
  | nil => exact absurd h List.not_mem_nil
  | cons d es ih =>
    rw [bytesElements, List.length_append]
    rcases List.mem_cons.1 h with rfl | h
    · exact Nat.le_add_right _ _
    · exact (ih h).trans (Nat.le_add_left _ _)

theorem length_le_bytesMembers {ms : List (Bytes × Json)} {m : Bytes × Json} (h : m ∈ ms) :
    (bytes m.2).length ≤ (bytesMembers ms).length := by
  induction ms with
  | nil => exact absurd h List.not_mem_nil
  | cons q ms ih =>
    rw [bytesMembers, List.length_append, List.length_append]
    rcases List.mem_cons.1 h with rfl | h
    · omega
    · have := ih h; omega

theorem present_of_portable (v : Json) (hp : Portable v) : Present v := by
  induction v using Json.ind with
  | array es ih => exact (every_array _ _).2 ⟨rfl, fun e he => ih e he (((every_array _ _).1 hp).2 e he)⟩
  | object ms ih => exact (every_object _ _).2 ⟨rfl, fun m hm => ih m hm (((every_object _ _).1 hp).2 m hm)⟩
  | discarded => exact absurd hp Bool.false_ne_true
  | _ => rfl

theorem length_bytes_pos (v : Json) (hv : Present v) : 0 < (bytes v).length := by
  have hinteger : ∀ n : Int64, 0 < (integerBytes n).length := by
    intro n
    unfold integerBytes
    split_ifs
    · exact length_tagBytes_pos _ _
    · exact length_tagBytes_pos _ _
  cases v with
  | null => simp [bytes]
  | boolean b => simp [bytes]
  | numberInteger v => exact hinteger v
  | numberUnsigned v => exact length_tagBytes_pos _ _
  | numberFloat bits =>
    rw [bytes]
    split
    · exact hinteger _
    · split
      · exact Nat.succ_pos _
      · exact Nat.succ_pos _
  | discarded => exact absurd hv Bool.false_ne_true
  | _ =>
    simp only [bytes, stringBytes, List.length_append]
    exact Nat.add_pos_left (length_tagBytes_pos _ _) _

/-- **The decoder on the encoder's bytes.** It returns true with the value at the other end and leaves what follows,
whatever value it decodes into. -/
theorem decodeFuel_bytes (v : Json) (hw : WellFormed v) (hp : Portable v) (fuel : ℕ) (hf : (bytes v).length ≤ fuel)
    (tl : Bytes) (n : ℕ) (old : Json) :
    decodeFuel fuel ⟨bytes v ++ tl, n⟩ old = (true, arrive v, ⟨tl, n + (bytes v).length⟩) := by
  obtain ⟨fuel, rfl⟩ : ∃ k, fuel = k + 1 := by
    have hpos := length_bytes_pos v (present_of_portable v hp)
    exact ⟨fuel - 1, by omega⟩
  induction v using Json.ind generalizing fuel tl n old with
  | null => rfl
  | boolean b => cases b <;> rfl
  | numberInteger v =>
    simp only [bytes, integerBytes, arrive] at hf ⊢
    split_ifs
    · simp only [decodeFuel, pbDecodeTag_tagBytes, toInt64_neg_neg]
    · simp only [decodeFuel, pbDecodeTag_tagBytes, UInt64.ofNat_toNat]
  | numberUnsigned v => simp only [bytes, decodeFuel, pbDecodeTag_tagBytes, UInt64.ofNat_toNat, arrive]
  | numberFloat bits => exact absurd hp Bool.false_ne_true
  | string s =>
    have hs : (cStr s).length ≤ UINT32_MAX := (length_cStr_le s).trans (of_decide_eq_true hp)
    simp only [bytes, stringBytes, List.append_assoc, decodeFuel, pbDecodeTag_tagBytes, toNat_ofNat_of_le hs,
      readSized_append _ _ _ hs, arrive, List.length_append, Nat.add_assoc]
  | binary data subtype =>
    have hd : data.length ≤ UINT32_MAX := (portable_binary.1 hp).2
    simp only [bytes, List.append_assoc, decodeFuel, pbDecodeTag_tagBytes, toNat_ofNat_of_le hd,
      readSized_append _ _ _ hd, arrive, List.length_append, Nat.add_assoc]
  | array es ih =>
    obtain ⟨hlen, hwe⟩ := (every_array _ _).1 hw
    obtain ⟨-, hpe⟩ := (every_array _ _).1 hp
    have hsize : (UInt64.ofNat es.length).toNat = es.length := by
      rw [UInt64.toNat_ofNat', Nat.mod_eq_of_lt (of_decide_eq_true hlen)]
    have hbytes : (bytesElements es).length ≤ fuel := by
      have := length_tagBytes_pos .arrayT (UInt64.ofNat es.length)
      simp only [bytes, List.length_append] at hf; omega
    have hd : ∀ e ∈ es, ∀ tl n old,
        decodeFuel fuel ⟨bytes e ++ tl, n⟩ old = (true, arrive e, ⟨tl, n + (bytes e).length⟩) := by
      intro e he tl n old
      have hpos := length_bytes_pos e (present_of_portable e (hpe e he))
      have hle := length_le_bytesElements he
      obtain ⟨k, rfl⟩ : ∃ k, fuel = k + 1 := ⟨fuel - 1, by omega⟩
      exact ih e he (hwe e he) (hpe e he) _ _ _ k ((length_le_bytesElements he).trans hbytes)
    simp only [bytes, List.append_assoc, decodeFuel, pbDecodeTag_tagBytes, hsize, decodeArray_bytes _ es [] tl _ hd,
      arrive, List.nil_append, List.length_append, Nat.add_assoc]
  | object ms ih =>
    obtain ⟨hnode, hwm⟩ := (every_object _ _).1 hw
    obtain ⟨hkeys, hpm⟩ := (every_object _ _).1 hp
    have hsize : (UInt64.ofNat ms.length).toNat = ms.length := by
      rw [UInt64.toNat_ofNat', Nat.mod_eq_of_lt (wellFormedNode_object.1 hnode).1]
    have hk : ∀ m ∈ ms, m.1.length ≤ UINT32_MAX := fun m hm => of_decide_eq_true (List.all_eq_true.1 hkeys m hm)
    have hbytes : (bytesMembers ms).length ≤ fuel := by
      have := length_tagBytes_pos .mapT (UInt64.ofNat ms.length)
      simp only [bytes, List.length_append] at hf; omega
    have hd : ∀ m ∈ ms, ∀ tl n old,
        decodeFuel fuel ⟨bytes m.2 ++ tl, n⟩ old = (true, arrive m.2, ⟨tl, n + (bytes m.2).length⟩) := by
      intro m hm tl n old
      have hpos := length_bytes_pos m.2 (present_of_portable m.2 (hpm m hm))
      have hle := length_le_bytesMembers hm
      obtain ⟨k, rfl⟩ : ∃ k, fuel = k + 1 := ⟨fuel - 1, by omega⟩
      exact ih m hm (hwm m hm) (hpm m hm) _ _ _ k ((length_le_bytesMembers hm).trans hbytes)
    simp only [bytes, List.append_assoc, decodeFuel, pbDecodeTag_tagBytes, hsize,
      decodeObject_bytes _ ms [] tl _ hk hd, arrive, List.length_append, Nat.add_assoc]
  | discarded => exact absurd hp Bool.false_ne_true

/-! ## When the value at the other end is the value sent -/

theorem nulFree_cStr (s : Bytes) : nulFreeString (cStr s) = true :=
  List.all_takeWhile

theorem cStr_of_nulFree {s : Bytes} (h : nulFreeString s = true) : cStr s = s :=
  List.takeWhile_eq_self_iff.2 fun b hb => List.all_eq_true.1 h b hb

theorem nulFree_array {es : List Json} : NulFree (.array es) ↔ ∀ e ∈ es, NulFree e := by
  simp [NulFree, every_array, nulFreeNode]

theorem nulFree_object {ms : List (Bytes × Json)} :
    NulFree (.object ms) ↔ ∀ m ∈ ms, nulFreeString m.1 = true ∧ NulFree m.2 := by
  simp only [NulFree, every_object, nulFreeNode, List.all_eq_true]
  exact ⟨fun h m hm => ⟨h.1 m hm, h.2 m hm⟩, fun h => ⟨fun m hm => (h m hm).1, fun m hm => (h m hm).2⟩⟩

theorem nulFree_norm (v : Json) : NulFree (Json.norm v) ↔ NulFree v := by
  induction v using Json.ind with
  | numberInteger v => rw [Json.norm]; split_ifs <;> exact Iff.rfl
  | array es ih =>
    simp only [Json.norm, normElements_eq, nulFree_array, List.forall_mem_map]
    exact forall₂_congr ih
  | object ms ih =>
    simp only [Json.norm, normMembers_eq, nulFree_object, List.forall_mem_map]
    exact forall₂_congr fun m hm => and_congr_right fun _ => ih m hm
  | _ => exact Iff.rfl

/-- what arrives holds no NUL -/
theorem nulFree_arrive (v : Json) : NulFree (arrive v) := by
  induction v using Json.ind with
  | numberInteger v => rw [arrive]; split_ifs <;> rfl
  | string s => exact nulFree_cStr s
  | array es ih => rw [arrive, arriveElements_eq]; exact nulFree_array.2 (List.forall_mem_map.2 ih)
  | object ms ih =>
    rw [arrive, arriveMembers_eq, nulFree_object]
    -- every member read so far is NUL-free, and the next one joins them
    refine List.foldlRecOn (motive := fun o : List (Bytes × Json) => ∀ m ∈ o, nulFreeString m.1 = true ∧ NulFree m.2)
      ms _ (fun m hm => absurd hm List.not_mem_nil) fun o ho m hm p hp => ?_
    rcases SortedMap.mem_insert hp with rfl | hp
    · exact ⟨nulFree_cStr m.1, ih m hm⟩
    · exact ho p hp
  | _ => rfl

/-- the members of an object with NUL-free keys arrive under their own keys, in their own order -/
theorem arriveMembers_of_nulFree {ms : List (Bytes × Json)} (ho : SortedMap.Ordered ms)
    (hk : ∀ m ∈ ms, nulFreeString m.1 = true) : arriveMembers [] ms = ms.map fun m => (m.1, arrive m.2) := by
  have hord : SortedMap.Ordered ([] ++ ms.map fun m => (m.1, arrive m.2)) := List.pairwise_map.2 ho
  calc arriveMembers [] ms = ms.foldl (fun o m => SortedMap.insert m.1 (arrive m.2) o) [] := by
        rw [arriveMembers_eq]
        exact List.foldl_ext _ _ _ fun o m hm => by rw [cStr_of_nulFree (hk m hm)]
    _ = (ms.map fun m => (m.1, arrive m.2)).foldl (fun o p => SortedMap.insert p.1 p.2 o) [] := by rw [List.foldl_map]
    _ = ms.map fun m => (m.1, arrive m.2) := SortedMap.foldl_insert [] _ hord

theorem arrive_same (v : Json) (hw : WellFormed v) (hp : Portable v) (hn : NulFree v) : Same (arrive v) v := by
  induction v using Json.ind with
  | numberInteger v =>
    unfold Same
    rw [arrive]
    split_ifs with h
    · rfl
    · simp only [Json.norm, if_pos (Int64.not_lt.1 h)]
  | numberFloat bits => exact absurd hp Bool.false_ne_true
  | discarded => exact absurd hp Bool.false_ne_true
  | string s => rw [arrive, cStr_of_nulFree hn]; rfl
  | binary data subtype => rw [arrive, (portable_binary.1 hp).1]; rfl
  | array es ih =>
    have hwe := ((every_array _ _).1 hw).2
    have hpe := ((every_array _ _).1 hp).2
    have hne := nulFree_array.1 hn
    simp only [Same, arrive, Json.norm, normElements_eq, arriveElements_eq, List.map_map, Json.array.injEq]
    exact List.map_congr_left fun e he => ih e he (hwe e he) (hpe e he) (hne e he)
  | object ms ih =>
    obtain ⟨hnode, hwm⟩ := (every_object _ _).1 hw
    have hpm := ((every_object _ _).1 hp).2
    have hnm := nulFree_object.1 hn
    have hms := arriveMembers_of_nulFree (wellFormedNode_object.1 hnode).2 fun m hm => (hnm m hm).1
    simp only [Same, arrive, Json.norm, normMembers_eq, hms, List.map_map, Json.object.injEq]
    exact List.map_congr_left fun m hm => Prod.ext rfl (ih m hm (hwm m hm) (hpm m hm) (hnm m hm).2)
  | _ => rfl

/-- **What arrives equals what was sent exactly when no string and no key of it holds a NUL.** -/
theorem arrive_same_iff (v : Json) (hw : WellFormed v) (hp : Portable v) : Same (arrive v) v ↔ NulFree v := by
  refine ⟨fun h => ?_, arrive_same v hw hp⟩
  rw [← nulFree_norm, ← h, nulFree_norm]
  exact nulFree_arrive v

/-! ## The round trip -/

/-- what `pson_encoder<string_writer>` leaves in its string -/
def encoded (v : Json) : Bool × Bytes :=
  let (ok, w) := encode v (⟨[], 0⟩ : StringWriter)
  (ok, w.string)

theorem encoded_eq (v : Json) (hp : Portable v) : encoded v = (true, bytes v) := by
  unfold encoded
  rw [encode_writes v (present_of_portable v hp)]
  rfl

/-- the decoder, on the encoding of `v` followed by `rest`, returns true with a value equal to `v` and leaves exactly
`rest` -/
def RoundTrips (v : Json) : Prop :=
  ∀ rest value, ∃ arrived,
    decode (MemoryReader.ofBuffer ((encoded v).2 ++ rest)) value = (true, arrived, ⟨rest, (encoded v).2.length⟩) ∧
      Same arrived v

theorem decode_encoded (v : Json) (hw : WellFormed v) (hp : Portable v) (rest : Bytes) (value : Json) :
    decode (MemoryReader.ofBuffer ((encoded v).2 ++ rest)) value =
      (true, arrive v, ⟨rest, (encoded v).2.length⟩) := by
  rw [encoded_eq v hp, decode, MemoryReader.ofBuffer,
    decodeFuel_bytes v hw hp _ (by simp only [List.length_append]; omega), Nat.zero_add]

/-- **The round trip.** A portable value survives it, before any suffix, exactly when it holds no NUL. -/
theorem pson_round_trip_iff (v : Json) (hw : WellFormed v) (hp : Portable v) : RoundTrips v ↔ NulFree v := by
  rw [← arrive_same_iff v hw hp]
  constructor
  · intro h
    obtain ⟨arrived, hd, hs⟩ := h [] .null
    rw [decode_encoded v hw hp] at hd
    obtain rfl : arrive v = arrived := congrArg (fun d => d.2.1) hd
    exact hs
  · exact fun h rest value => ⟨arrive v, decode_encoded v hw hp rest value, h⟩

/-- an object in an array, with a negative integer -/
theorem pson_round_trip_nested : RoundTrips (.array [.object [([0x61], .numberInteger (-5))], .string [0x62]]) :=
  (pson_round_trip_iff _ (by decide) (by decide)).2 (by decide)

/-- the string `"a\0b"` arrives as `"a"` -/
theorem pson_nul_truncated : ¬ RoundTrips (.string [0x61, 0x00, 0x62]) := by
  intro h
  obtain ⟨arrived, hd, hs⟩ := h [] .null
  have hcut : arrived = .string [0x61] := (congrArg (fun d => d.2.1) hd).symm
  rw [hcut] at hs
  exact absurd hs (by simp [Same, Json.norm])

end Iotmp.Pson
