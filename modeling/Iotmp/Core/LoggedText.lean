/-
The text of a message that the logger serialises, and what the codec makes of it.

- `Utf8.Characters`: UTF-8 as a sequence of characters. `valid_iff`: the serializer's state machine accepts exactly
  these.
- `Json.texts`: the strings and keys of a value, at any depth. `printable_iff`: `dump()` returns iff all of them are
  UTF-8.
- `IotmpMessage.loggedTexts`: those of the fields the logger prints. `dumpable_iff`: the same for a whole message.
- `Pson.Cut`: every string or key of the one value is one of the other, cut at its first NUL, as the encoder cuts it.
  `decodeFuel_cut`: what the decoder makes of an encoded value, floating-point numbers included. `valid_cStr`: cutting
  keeps UTF-8.
-/
import Mathlib.Tactic
import Iotmp.Core.Logger
import Iotmp.Core.PsonRoundTrip

namespace Iotmp

/-! ## UTF-8 as a sequence of characters -/

namespace Utf8

/-- the bytes after a first byte, each in its range -/
def Follow : List (UInt8 × UInt8) → Bytes → Prop := List.Forall₂ fun range b => range.1 ≤ b ∧ b ≤ range.2

inductive Characters : Bytes → Prop
  | nil : Characters []
  | cons {b : UInt8} {ranges : List (UInt8 × UInt8)} {tail rest : Bytes} (first : continuations b = some ranges)
      (follow : Follow ranges tail) (more : Characters rest) : Characters (b :: (tail ++ rest))

/-- the machine inside a character -/
theorem foldlM_follow {ranges : List (UInt8 × UInt8)} {tail : Bytes} (h : Follow ranges tail) (rest : Bytes) :
    (tail ++ rest).foldlM step ranges = rest.foldlM step [] := by
  induction h with
  | nil => rfl
  | cons hb _ ih =>
    rw [List.cons_append, List.foldlM_cons]
    simp only [step, if_pos hb]
    exact ih

theorem foldlM_of_characters {s : Bytes} (h : Characters s) : s.foldlM step [] = some [] := by
  induction h with
  | nil => rfl
  | cons first follow _ ih =>
    rw [List.foldlM_cons]
    simp only [step, first, Option.bind_eq_bind, Option.bind_some]
    rw [foldlM_follow follow, ih]

/-- a run of the machine that ends between characters finishes the one it is in -/
theorem characters_of_foldlM (s : Bytes) (ranges : List (UInt8 × UInt8)) (h : s.foldlM step ranges = some []) :
    ∃ tail rest, s = tail ++ rest ∧ Follow ranges tail ∧ Characters rest := by
  induction s generalizing ranges with
  | nil =>
    obtain rfl : ranges = [] := by simpa using h
    exact ⟨[], [], rfl, .nil, .nil⟩
  | cons b s ih =>
    rw [List.foldlM_cons] at h
    cases ranges with
    | nil =>
      rcases hb : continuations b with _ | ranges
      · simp [step, hb] at h
      · simp only [step, hb, Option.bind_eq_bind, Option.bind_some] at h
        obtain ⟨tail, rest, rfl, hfollow, hrest⟩ := ih ranges h
        exact ⟨[], b :: (tail ++ rest), rfl, .nil, .cons hb hfollow hrest⟩
    | cons range ranges =>
      by_cases hb : range.1 ≤ b ∧ b ≤ range.2
      · simp only [step, if_pos hb, Option.bind_eq_bind, Option.bind_some] at h
        obtain ⟨tail, rest, rfl, hfollow, hrest⟩ := ih ranges h
        exact ⟨b :: tail, rest, rfl, .cons hb hfollow, hrest⟩
      · simp [step, if_neg hb] at h

/-- **The machine accepts the sequences of characters.** -/
theorem valid_iff (s : Bytes) : valid s = true ↔ Characters s := by
  rw [valid, beq_iff_eq]
  refine ⟨fun h => ?_, foldlM_of_characters⟩
  obtain ⟨tail, rest, rfl, hfollow, hrest⟩ := characters_of_foldlM s [] h
  cases hfollow
  exact hrest

/-- no byte of a character but the first is NUL -/
theorem continuations_pos {b : UInt8} {ranges : List (UInt8 × UInt8)} (h : continuations b = some ranges) :
    ∀ range ∈ ranges, 0 < range.1 := by
  unfold continuations at h
  split_ifs at h <;> obtain rfl := Option.some.inj h <;> simp

theorem Follow.nulFree {ranges : List (UInt8 × UInt8)} {tail : Bytes} (h : Follow ranges tail)
    (hpos : ∀ range ∈ ranges, 0 < range.1) : ∀ b ∈ tail, b ≠ 0 := by
  induction h with
  | nil => exact fun b hb => absurd hb List.not_mem_nil
  | cons hb _ ih =>
    obtain ⟨hpos1, hpos2⟩ := List.forall_mem_cons.1 hpos
    exact List.forall_mem_cons.2 ⟨(hpos1.trans_le hb.1).ne', ih hpos2⟩

/-- **Cutting at the first NUL keeps UTF-8.** -/
theorem valid_cStr {s : Bytes} (h : valid s = true) : valid (Pson.cStr s) = true := by
  rw [valid_iff] at h ⊢
  induction h with
  | nil => exact .nil
  | @cons b ranges tail rest first follow _ ih =>
    have htail := follow.nulFree (continuations_pos first)
    by_cases hb : b = 0
    · subst hb
      exact .nil
    · have hcut : Pson.cStr (b :: (tail ++ rest)) = b :: (tail ++ Pson.cStr rest) := by
        rw [Pson.cStr, List.takeWhile_cons_of_pos (by simpa using hb),
          List.takeWhile_append_of_pos (by simpa using htail)]
        rfl
      rw [hcut]
      exact .cons first follow ih

end Utf8

/-! ## The text of a value -/

namespace Json

mutual

/-- the strings and the keys of a value -/
def texts : Json → List Bytes
  | .string s => [s]
  | .array es => textsElements es
  | .object ms => textsMembers ms
  | _ => []

def textsElements : List Json → List Bytes
  | [] => []
  | e :: es => texts e ++ textsElements es

def textsMembers : List (Bytes × Json) → List Bytes
  | [] => []
  | (key, value) :: ms => key :: (texts value ++ textsMembers ms)

end

theorem mem_textsElements {t : Bytes} {es : List Json} : t ∈ textsElements es ↔ ∃ e ∈ es, t ∈ texts e := by
  induction es with
  | nil => simp [textsElements]
  | cons e es ih => simp [textsElements, ih]

theorem mem_textsMembers {t : Bytes} {ms : List (Bytes × Json)} :
    t ∈ textsMembers ms ↔ ∃ m ∈ ms, t = m.1 ∨ t ∈ texts m.2 := by
  induction ms with
  | nil => simp [textsMembers]
  | cons m ms ih =>
    obtain ⟨key, value⟩ := m
    simp [textsMembers, ih, or_assoc]

theorem mem_texts_array {t : Bytes} {es : List Json} : t ∈ texts (.array es) ↔ ∃ e ∈ es, t ∈ texts e := by
  rw [texts, mem_textsElements]

theorem mem_texts_object {t : Bytes} {ms : List (Bytes × Json)} :
    t ∈ texts (.object ms) ↔ ∃ m ∈ ms, t = m.1 ∨ t ∈ texts m.2 := by
  rw [texts, mem_textsMembers]

/-- **`dump()` returns iff every string and every key is UTF-8**, however deep. -/
theorem printable_iff (v : Json) : v.Printable ↔ ∀ t ∈ v.texts, Utf8.valid t = true := by
  induction v using Json.ind with
  | string s => simp [Printable, every, printableNode, texts]
  | array es ih =>
    calc Printable (.array es) ↔ ∀ e ∈ es, Printable e := by simp [Printable, every_array, printableNode]
      _ ↔ ∀ e ∈ es, ∀ t ∈ e.texts, Utf8.valid t = true := forall₂_congr ih
      _ ↔ ∀ t ∈ texts (.array es), Utf8.valid t = true := by
        simp only [mem_texts_array, forall_exists_index, and_imp]
        exact ⟨fun h t e he ht => h e he t ht, fun h e he t ht => h t e he ht⟩
  | object ms ih =>
    calc Printable (.object ms) ↔ ∀ m ∈ ms, Utf8.valid m.1 = true ∧ Printable m.2 := by
          simp only [Printable, every_object, printableNode, List.all_eq_true]
          exact ⟨fun h m hm => ⟨h.1 m hm, h.2 m hm⟩, fun h => ⟨fun m hm => (h m hm).1, fun m hm => (h m hm).2⟩⟩
      _ ↔ ∀ m ∈ ms, Utf8.valid m.1 = true ∧ ∀ t ∈ m.2.texts, Utf8.valid t = true :=
        forall₂_congr fun m hm => and_congr_right fun _ => ih m hm
      _ ↔ ∀ t ∈ texts (.object ms), Utf8.valid t = true := by
        simp only [mem_texts_object, forall_exists_index, and_imp]
        constructor
        · rintro h t m hm (rfl | ht)
          · exact (h m hm).1
          · exact (h m hm).2 t ht
        · exact fun h m hm => ⟨h m.1 m hm (Or.inl rfl), fun t ht => h t m hm (Or.inr ht)⟩
  | _ => exact iff_of_true rfl fun t ht => absurd ht List.not_mem_nil

end Json

/-! ## The text of a message -/

namespace IotmpMessage

/-- the text that the logger serialises if the field holds `v` -/
def loggedText (field : UInt8) (v : Json) : List Bytes :=
  if field = Field.RESOURCE then (dumpedResource v).texts
  else if field = Field.PARAMETERS ∨ field = Field.PAYLOAD then v.texts
  else []

def loggedTexts (m : IotmpMessage) : List Bytes := Field.protocol.flatMap fun field => loggedText field (m.get field)

theorem texts_dumpedPayload (v : Json) : (dumpedPayload v).texts = v.texts := by cases v <;> rfl

/-- the logger prints no other field -/
theorem mem_loggedTexts {m : IotmpMessage} {t : Bytes} :
    t ∈ m.loggedTexts ↔ ∃ field, t ∈ loggedText field (m.get field) := by
  rw [loggedTexts, List.mem_flatMap]
  refine ⟨fun ⟨field, _, ht⟩ => ⟨field, ht⟩, fun ⟨field, ht⟩ => ⟨field, ?_, ht⟩⟩
  unfold loggedText at ht
  split_ifs at ht with hr hp
  · exact hr ▸ by decide
  · rcases hp with rfl | rfl <;> decide
  · exact absurd ht List.not_mem_nil

/-- **A message can be dumped iff every text that is logged is UTF-8.** -/
theorem dumpable_iff (m : IotmpMessage) : m.Dumpable ↔ ∀ t ∈ m.loggedTexts, Utf8.valid t = true := by
  have hresource :
      loggedText Field.RESOURCE (m.get Field.RESOURCE) = (dumpedResource (m.get Field.RESOURCE)).texts := rfl
  have hparameters : loggedText Field.PARAMETERS (m.get Field.PARAMETERS) = (m.get Field.PARAMETERS).texts := rfl
  have hpayload : loggedText Field.PAYLOAD (m.get Field.PAYLOAD) = (m.get Field.PAYLOAD).texts := rfl
  have hstream : loggedText Field.STREAM_ID (m.get Field.STREAM_ID) = [] := rfl
  simp only [Dumpable, Json.printable_iff, texts_dumpedPayload, loggedTexts, Field.protocol, List.flatMap_cons,
    List.flatMap_nil, List.append_nil, List.forall_mem_append, hresource, hparameters, hpayload, hstream,
    List.nil_append]
  tauto

end IotmpMessage

/-! ## What the codec makes of it -/

namespace Pson

open Json

/-- `v'` has no text but that of `v`, cut at its first NUL, and is an array only if `v` is -/
structure Cut (v' v : Json) : Prop where
  texts : ∀ t ∈ v'.texts, ∃ s ∈ v.texts, t = cStr s
  array : ∀ es', v' = .array es' → ∃ es, v = .array es

/-- a number, a boolean, null or a binary -/
theorem Cut.of_textless {v' v : Json} (h : v'.texts = []) (ha : ∀ es, v' ≠ .array es) : Cut v' v :=
  ⟨fun t ht => by rw [h] at ht; exact absurd ht List.not_mem_nil, fun es' h' => absurd h' (ha es')⟩

/-- the decoder, on the bytes of `v`, returns true with some such value -/
def ReadsCut (decode : MemoryReader → Json → Decoded Json) (v : Json) : Prop :=
  ∀ tl n old, ∃ v', decode ⟨bytes v ++ tl, n⟩ old = (true, v', ⟨tl, n + (bytes v).length⟩) ∧ Cut v' v

theorem decodePair_cut {decode : MemoryReader → Json → Decoded Json} (key : Bytes) (value : Json)
    (acc : List (Bytes × Json)) (tl : Bytes) (n : ℕ) (hk : (cStr key).length ≤ UINT32_MAX)
    (hd : ReadsCut decode value) :
    ∃ v', decodePair decode acc ⟨stringBytes key ++ (bytes value ++ tl), n⟩ =
      (true, SortedMap.insert (cStr key) v' acc, ⟨tl, n + (stringBytes key ++ bytes value).length⟩) ∧ Cut v' value := by
  obtain ⟨v', hv, hcut⟩ := hd tl
    (n + ((tagBytes .stringT (UInt64.ofNat (cStr key).length)).length + (cStr key).length))
    ((SortedMap.find (cStr key) acc).getD .null)
  refine ⟨v', ?_, hcut⟩
  simp only [stringBytes, List.append_assoc, decodePair, pbDecodeTag_tagBytes, toNat_ofNat_of_le hk,
    readSized_append _ _ _ hk, hv, List.length_append, Nat.add_assoc]

theorem decodeObject_cut {decode : MemoryReader → Json → Decoded Json} (ms acc : List (Bytes × Json)) (tl : Bytes)
    (n : ℕ) (hk : ∀ m ∈ ms, (cStr m.1).length ≤ UINT32_MAX) (hd : ∀ m ∈ ms, ReadsCut decode m.2) :
    ∃ o, decodeObject decode ms.length acc ⟨bytesMembers ms ++ tl, n⟩ =
        (true, o, ⟨tl, n + (bytesMembers ms).length⟩) ∧
      ∀ t ∈ textsMembers o, t ∈ textsMembers acc ∨ ∃ s ∈ textsMembers ms, t = cStr s := by
  induction ms generalizing acc n with
  | nil => exact ⟨acc, rfl, fun t ht => Or.inl ht⟩
  | cons m ms ih =>
    obtain ⟨key, value⟩ := m
    obtain ⟨hk1, hk2⟩ := List.forall_mem_cons.1 hk
    obtain ⟨hd1, hd2⟩ := List.forall_mem_cons.1 hd
    obtain ⟨v', hpair, hcut⟩ := decodePair_cut key value acc (bytesMembers ms ++ tl) n hk1 hd1
    obtain ⟨o, hobject, htexts⟩ := ih (SortedMap.insert (cStr key) v' acc)
      (n + ((stringBytes key).length + (bytes value).length)) hk2 hd2
    refine ⟨o, ?_, fun t ht => ?_⟩
    · simp only [bytesMembers, List.append_assoc, List.length_cons, decodeObject, hpair, hobject, List.length_append,
        Nat.add_assoc]
    · rcases htexts t ht with hmem | ⟨s, hs, rfl⟩
      · obtain ⟨p, hp, ht⟩ := mem_textsMembers.1 hmem
        rcases SortedMap.mem_insert hp with rfl | hp
        · refine Or.inr ?_
          rcases ht with rfl | ht
          · exact ⟨key, by simp [textsMembers], rfl⟩
          · obtain ⟨s, hs, rfl⟩ := hcut.texts t ht
            exact ⟨s, by simp [textsMembers, hs], rfl⟩
        · exact Or.inl (mem_textsMembers.2 ⟨p, hp, ht⟩)
      · exact Or.inr ⟨s, by simp [textsMembers, hs], rfl⟩

theorem decodeArray_cut {decode : MemoryReader → Json → Decoded Json} (es acc : List Json) (tl : Bytes) (n : ℕ)
    (hd : ∀ e ∈ es, ReadsCut decode e) :
    ∃ a, decodeArray decode es.length acc ⟨bytesElements es ++ tl, n⟩ =
        (true, a, ⟨tl, n + (bytesElements es).length⟩) ∧
      ∀ t ∈ textsElements a, t ∈ textsElements acc ∨ ∃ s ∈ textsElements es, t = cStr s := by
  induction es generalizing acc n with
  | nil => exact ⟨acc, rfl, fun t ht => Or.inl ht⟩
  | cons e es ih =>
    obtain ⟨hd1, hd2⟩ := List.forall_mem_cons.1 hd
    obtain ⟨v', hv, hcut⟩ := hd1 (bytesElements es ++ tl) n .null
    obtain ⟨a, harray, htexts⟩ := ih (acc ++ [v']) (n + (bytes e).length) hd2
    refine ⟨a, ?_, fun t ht => ?_⟩
    · simp only [bytesElements, List.append_assoc, List.length_cons, decodeArray, hv, harray, List.length_append,
        Nat.add_assoc]
    · rcases htexts t ht with hmem | ⟨s, hs, rfl⟩
      · obtain ⟨d, hd, ht⟩ := mem_textsElements.1 hmem
        rcases List.mem_append.1 hd with hd | hd
        · exact Or.inl (mem_textsElements.2 ⟨d, hd, ht⟩)
        · obtain rfl := List.mem_singleton.1 hd
          obtain ⟨s, hs, rfl⟩ := hcut.texts t ht
          exact Or.inr ⟨s, by simp [textsElements, hs], rfl⟩
      · exact Or.inr ⟨s, by simp [textsElements, hs], rfl⟩

theorem decodeRaw_append (ofBytes : Bytes → Json) (bs tl : Bytes) (n : ℕ) (old : Json) :
    decodeRaw bs.length ofBytes ⟨bs ++ tl, n⟩ old = (true, ofBytes bs, ⟨tl, n + bs.length⟩) := by
  rw [decodeRaw, MemoryReader.read_append]

theorem length_elements_le {es : List Json} (h : ∀ e ∈ es, Present e) : es.length ≤ (bytesElements es).length := by
  induction es with
  | nil => exact le_rfl
  | cons e es ih =>
    obtain ⟨he, hes⟩ := List.forall_mem_cons.1 h
    have hpos := length_bytes_pos e he
    have hle := ih hes
    rw [bytesElements, List.length_append, List.length_cons]
    omega

theorem length_members_le {ms : List (Bytes × Json)} (h : ∀ m ∈ ms, Present m.2) :
    ms.length ≤ (bytesMembers ms).length := by
  induction ms with
  | nil => exact le_rfl
  | cons m ms ih =>
    obtain ⟨hm, hms⟩ := List.forall_mem_cons.1 h
    have hpos := length_bytes_pos m.2 hm
    have hle := ih hms
    rw [bytesMembers, List.length_append, List.length_append, List.length_cons]
    omega

theorem length_key_le {ms : List (Bytes × Json)} {m : Bytes × Json} (h : m ∈ ms) :
    (cStr m.1).length ≤ (bytesMembers ms).length := by
  induction ms with
  | nil => exact absurd h List.not_mem_nil
  | cons q ms ih =>
    rw [bytesMembers, List.length_append, List.length_append]
    rcases List.mem_cons.1 h with rfl | h
    · rw [stringBytes, List.length_append]
      omega
    · have := ih h
      omega

theorem decodeFuel_integer (v : Int64) (fuel : ℕ) (tl : Bytes) (n : ℕ) (old : Json) :
    ∃ v', decodeFuel (fuel + 1) ⟨integerBytes v ++ tl, n⟩ old = (true, v', ⟨tl, n + (integerBytes v).length⟩) ∧
      v'.texts = [] ∧ ∀ es, v' ≠ .array es := by
  unfold integerBytes
  split_ifs
  · exact ⟨.numberInteger v, by simp only [decodeFuel, pbDecodeTag_tagBytes, toInt64_neg_neg], rfl, fun _ => by simp⟩
  · exact ⟨.numberUnsigned v.toUInt64, by simp only [decodeFuel, pbDecodeTag_tagBytes, UInt64.ofNat_toNat], rfl,
      fun _ => by simp⟩

/-- a float or a double behind its tag -/
theorem decodeFuel_floating (payload : UInt8) (bs : Bytes) (ofBytes : Bytes → Json) (fuel : ℕ) (tl : Bytes) (n : ℕ)
    (old : Json) (h : ∀ r, decodeFuel (fuel + 1) ⟨tagByte .floatingT payload :: r, n⟩ old =
      decodeRaw bs.length ofBytes ⟨r, n + 1⟩ old) :
    decodeFuel (fuel + 1) ⟨tagByte .floatingT payload :: bs ++ tl, n⟩ old =
      (true, ofBytes bs, ⟨tl, n + (tagByte .floatingT payload :: bs).length⟩) := by
  rw [List.cons_append, h, decodeRaw_append, List.length_cons, Nat.add_assoc, Nat.add_comm 1]

theorem readsCut_numberFloat (bits : UInt64) (fuel : ℕ) : ReadsCut (decodeFuel (fuel + 1)) (.numberFloat bits) := by
  intro tl n old
  cases hi : asInt64 bits with
  | some v =>
    obtain ⟨v', hd, htexts, harray⟩ := decodeFuel_integer v fuel tl n old
    exact ⟨v', by simpa only [bytes, hi] using hd, .of_textless htexts harray⟩
  | none =>
    cases hf : asFloat bits with
    | some f =>
      refine ⟨.numberFloat (widen (UInt32.ofNat (ofLeBytes (leBytes 4 f.toNat)))), ?_,
        .of_textless rfl fun _ => by simp⟩
      simp only [bytes, hi, hf]
      exact decodeFuel_floating 0 (leBytes 4 f.toNat)
        (fun bs => .numberFloat (widen (UInt32.ofNat (ofLeBytes bs)))) fuel tl n old fun r => rfl
    | none =>
      refine ⟨.numberFloat (UInt64.ofNat (ofLeBytes (leBytes 8 bits.toNat))), ?_,
        .of_textless rfl fun _ => by simp⟩
      simp only [bytes, hi, hf]
      exact decodeFuel_floating 1 (leBytes 8 bits.toNat) (fun bs => .numberFloat (UInt64.ofNat (ofLeBytes bs))) fuel
        tl n old fun r => rfl

theorem readsCut_string {s : Bytes} (hs : (cStr s).length ≤ UINT32_MAX) (fuel : ℕ) :
    ReadsCut (decodeFuel (fuel + 1)) (.string s) := by
  intro tl n old
  refine ⟨.string (cStr s), ?_, fun t ht => ⟨s, List.mem_singleton_self s, List.mem_singleton.1 ht⟩, fun _ => by simp⟩
  simp only [bytes, stringBytes, List.append_assoc, decodeFuel, pbDecodeTag_tagBytes, toNat_ofNat_of_le hs,
    readSized_append _ _ _ hs, List.length_append, Nat.add_assoc]

theorem readsCut_binary {data : Bytes} (hdata : data.length ≤ UINT32_MAX) (subtype : Option UInt64) (fuel : ℕ) :
    ReadsCut (decodeFuel (fuel + 1)) (.binary data subtype) := by
  intro tl n old
  refine ⟨.binary data none, ?_, .of_textless rfl fun _ => by simp⟩
  simp only [bytes, List.append_assoc, decodeFuel, pbDecodeTag_tagBytes, toNat_ofNat_of_le hdata,
    readSized_append _ _ _ hdata, List.length_append, Nat.add_assoc]

theorem readsCut_array {es : List Json} (hsize : es.length ≤ UINT32_MAX) {fuel : ℕ}
    (hd : ∀ e ∈ es, ReadsCut (decodeFuel fuel) e) : ReadsCut (decodeFuel (fuel + 1)) (.array es) := by
  intro tl n old
  obtain ⟨a, harray, htexts⟩ := decodeArray_cut es [] tl
    (n + (tagBytes .arrayT (UInt64.ofNat es.length)).length) hd
  refine ⟨.array a, ?_, fun t ht => ?_, fun _ _ => ⟨es, rfl⟩⟩
  · simp only [bytes, List.append_assoc, decodeFuel, pbDecodeTag_tagBytes, toNat_ofNat_of_le hsize, harray,
      List.length_append, Nat.add_assoc]
  · exact (htexts t ht).resolve_left List.not_mem_nil

theorem readsCut_object {ms : List (Bytes × Json)} (hsize : ms.length ≤ UINT32_MAX)
    (hk : ∀ m ∈ ms, (cStr m.1).length ≤ UINT32_MAX) {fuel : ℕ} (hd : ∀ m ∈ ms, ReadsCut (decodeFuel fuel) m.2) :
    ReadsCut (decodeFuel (fuel + 1)) (.object ms) := by
  intro tl n old
  obtain ⟨o, hobject, htexts⟩ := decodeObject_cut ms [] tl
    (n + (tagBytes .mapT (UInt64.ofNat ms.length)).length) hk hd
  refine ⟨.object o, ?_, fun t ht => ?_, fun _ => by simp⟩
  · simp only [bytes, List.append_assoc, decodeFuel, pbDecodeTag_tagBytes, toNat_ofNat_of_le hsize, hobject,
      List.length_append, Nat.add_assoc]
  · exact (htexts t ht).resolve_left List.not_mem_nil

/-- **The decoder on the encoder's bytes**, for every value the encoder encodes. It returns true with a value whose
texts are those of `v`, cut. -/
theorem decodeFuel_cut (v : Json) (hv : Present v) (fuel : ℕ) (hf : (bytes v).length ≤ fuel)
    (hmax : (bytes v).length ≤ UINT32_MAX) : ReadsCut (decodeFuel fuel) v := by
  obtain ⟨fuel, rfl⟩ : ∃ k, fuel = k + 1 := ⟨fuel - 1, by have := length_bytes_pos v hv; omega⟩
  induction v using Json.ind generalizing fuel with
  | null => exact fun tl n old => ⟨.null, rfl, .of_textless rfl fun _ => by simp⟩
  | boolean b => cases b <;> exact fun tl n old => ⟨_, rfl, .of_textless rfl fun _ => by simp⟩
  | numberInteger v =>
    intro tl n old
    obtain ⟨v', hd, htexts, harray⟩ := decodeFuel_integer v fuel tl n old
    exact ⟨v', hd, .of_textless htexts harray⟩
  | numberUnsigned v =>
    intro tl n old
    refine ⟨.numberUnsigned v, ?_, .of_textless rfl fun _ => by simp⟩
    simp only [bytes, decodeFuel, pbDecodeTag_tagBytes, UInt64.ofNat_toNat]
  | numberFloat bits => exact readsCut_numberFloat bits fuel
  | string s =>
    rw [bytes, stringBytes, List.length_append] at hmax
    exact readsCut_string (by omega) fuel
  | binary data subtype =>
    rw [bytes, List.length_append] at hmax
    exact readsCut_binary (by omega) subtype fuel
  | array es ih =>
    obtain ⟨-, hes⟩ := (every_array _ _).1 hv
    have htag := length_tagBytes_pos .arrayT (UInt64.ofNat es.length)
    rw [bytes, List.length_append] at hf hmax
    refine readsCut_array ((length_elements_le hes).trans (by omega)) fun e he => ?_
    have hle := length_le_bytesElements he
    have hpos := length_bytes_pos e (hes e he)
    obtain ⟨k, rfl⟩ : ∃ k, fuel = k + 1 := ⟨fuel - 1, by omega⟩
    exact ih e he (hes e he) (by omega) k (by omega)
  | object ms ih =>
    obtain ⟨-, hms⟩ := (every_object _ _).1 hv
    have htag := length_tagBytes_pos .mapT (UInt64.ofNat ms.length)
    rw [bytes, List.length_append] at hf hmax
    have hk : ∀ m ∈ ms, (cStr m.1).length ≤ UINT32_MAX := fun m hm => (length_key_le hm).trans (by omega)
    refine readsCut_object ((length_members_le hms).trans (by omega)) hk fun m hm => ?_
    have hle := length_le_bytesMembers hm
    have hpos := length_bytes_pos m.2 (hms m hm)
    obtain ⟨k, rfl⟩ : ∃ k, fuel = k + 1 := ⟨fuel - 1, by omega⟩
    exact ih m hm (hms m hm) (by omega) k (by omega)
  | discarded => exact absurd hv Bool.false_ne_true

end Pson

end Iotmp
