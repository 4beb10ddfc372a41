/-
The four writers agree.

The PSON encoder stops at the first write that fails, the field encoder above it looks at no result and goes on.

- `Attempts p bs ok`: over any writer `p` makes one write of `bs` and returns whether all of it went in, or false if it
  breaks off after `bs` by itself (`ok = false`). `Alike p`: it attempts the same bytes over every lawful writer.
- `encode_alike`: the encoder of a value is `Alike`, and breaks off only at a `discarded` value inside it.
- `message_alike`: so a message leaves every lawful writer as one write of the same bytes does.
- `writers_agree`: what that is for each writer, and when `memory_writer` has room for a value.
Counterexample: `discarded_element`, an array whose only element is `discarded`.
-/
import Mathlib.Tactic
import Iotmp.Core.CodecRoundTrip

namespace Iotmp

/-! ## One write into a buffer -/

namespace MemoryWriter

theorem write_fst (data : Bytes) (w : MemoryWriter) :
    (write data w).1 = true ↔ w.current + data.length ≤ w.buffer.length := by
  induction data generalizing w with
  | nil => simp [w.current_le]
  | cons byte data ih =>
    by_cases h : w.current < w.buffer.length
    · rw [write_cons_of_lt byte data h, ih]
      simp only [advance, List.length_set, List.length_cons]
      omega
    · simp only [write_cons_of_full byte data h, List.length_cons, Bool.false_eq_true, false_iff]
      omega

theorem write_current (data : Bytes) (w : MemoryWriter) :
    (write data w).2.current = min (w.current + data.length) w.buffer.length := by
  induction data generalizing w with
  | nil => simp [w.current_le]
  | cons byte data ih =>
    have hle := w.current_le
    by_cases h : w.current < w.buffer.length
    · rw [write_cons_of_lt byte data h, ih]
      simp only [advance, List.length_set, List.length_cons]
      omega
    · simp only [write_cons_of_full byte data h, List.length_cons]
      omega

/-- what fits goes in at the current position, the rest of the buffer stays -/
theorem write_buffer (data : Bytes) (w : MemoryWriter) :
    (write data w).2.buffer = w.buffer.take w.current ++
      (data.take (w.buffer.length - w.current) ++ w.buffer.drop (w.current + data.length)) := by
  induction data generalizing w with
  | nil => simp
  | cons byte data ih =>
    by_cases h : w.current < w.buffer.length
    · have hset : w.buffer.set w.current byte =
          w.buffer.take w.current ++ byte :: w.buffer.drop (w.current + 1) := by
        rw [List.set_eq_take_append_cons_drop, if_pos h]
      have htake : (w.buffer.set w.current byte).take (w.current + 1) = w.buffer.take w.current ++ [byte] := by
        rw [hset, List.take_append, List.length_take_of_le h.le]
        simp
      have hroom : w.buffer.length - w.current = w.buffer.length - (w.current + 1) + 1 := by omega
      rw [write_cons_of_lt byte data h, ih]
      simp only [advance, List.length_set, List.length_cons, htake, hroom, List.take_succ_cons]
      rw [List.drop_set_of_lt (by omega)]
      simp [Nat.add_assoc, Nat.add_comm 1]
    · have hfull : w.buffer.length = w.current := le_antisymm (not_lt.1 h) w.current_le
      rw [write_cons_of_full byte data h]
      have htake : w.buffer.take w.current = w.buffer := List.take_of_length_le hfull.le
      have hdrop : w.buffer.drop (w.current + (byte :: data).length) = [] := List.drop_of_length_le (by omega)
      rw [htake, hdrop, hfull]
      simp

end MemoryWriter

/-! ## Writing the same bytes over every writer -/

/-- `p` is one write of `bs`; with `ok = false` it breaks off after it and returns false -/
def Attempts {W : Type} [Writer W] (p : Put W) (bs : Bytes) (ok : Bool) : Prop :=
  ∀ w, p w = ((Writer.write w bs).1 && ok, (Writer.write w bs).2)

section

variable {W : Type} [Writer W]

theorem Writes.attempts {p : Put W} {bs : Bytes} (h : Writes p bs) : Attempts p bs true := by
  intro w
  rw [h w, Bool.and_true]

theorem Attempts.emits {p : Put W} {bs : Bytes} {ok : Bool} (h : Attempts p bs ok) :
    Emits (fun w => (p w).2) bs := by
  intro w
  simp only [h w, emit]

/-- behind a `p` that breaks off nothing is written -/
theorem Attempts.andThen_false {p : Put W} {bs : Bytes} (h : Attempts p bs false) (q : Put W) :
    Attempts (p.andThen q) bs false := by
  intro w
  simp [Put.andThen, h w]

variable [LawfulWriter W]

theorem Attempts.andThen {p q : Put W} {a b : Bytes} {ok : Bool} (hp : Attempts p a true) (hq : Attempts q b ok) :
    Attempts (p.andThen q) (a ++ b) ok := by
  intro w
  rw [LawfulWriter.write_append]
  simp only [Put.andThen, hp w, put, Bool.and_true]
  rcases Writer.write w a with ⟨_ | _, w1⟩
  · rfl
  · exact hq w1

end

/-- `p` attempts the same bytes over every lawful writer, and goes through to its end iff `complete` -/
def Alike (p : ∀ (W : Type) [Writer W], Put W) (complete : Prop) : Prop :=
  ∃ (bs : Bytes) (ok : Bool), (ok = true ↔ complete) ∧ ∀ (W : Type) [Writer W] [LawfulWriter W], Attempts (p W) bs ok

section

variable {p q : ∀ (W : Type) [Writer W], Put W} {P Q : Prop}

theorem alike_of_writes (bs : Bytes) (h : ∀ (W : Type) [Writer W] [LawfulWriter W], Writes (p W) bs) :
    Alike p True := by
  refine ⟨bs, true, by simp, ?_⟩
  intro W _ _
  exact (h W).attempts

theorem Alike.of_iff (h : Alike p P) (hPQ : P ↔ Q) : Alike p Q := propext hPQ ▸ h

theorem Alike.andThen (hp : Alike p P) (hq : Alike q Q) :
    Alike (fun W _ => (p W).andThen (q W)) (P ∧ Q) := by
  obtain ⟨a, okp, hokp, ha⟩ := hp
  obtain ⟨b, okq, hokq, hb⟩ := hq
  cases okp with
  | false =>
    have hP : ¬ P := fun h => Bool.false_ne_true (hokp.2 h)
    refine ⟨a, false, by simp [hP], ?_⟩
    intro W _ _
    exact (ha W).andThen_false (q W)
  | true =>
    refine ⟨a ++ b, okq, by simp [hokq, hokp.1 rfl], ?_⟩
    intro W _ _
    exact (ha W).andThen (hb W)

end

namespace Pson

open Json

theorem encodeElements_alike (es : List Json)
    (h : ∀ e ∈ es, Alike (fun W _ => encode (W := W) e) (Present e)) :
    Alike (fun W _ => encodeElements (W := W) es) (∀ e ∈ es, Present e) := by
  induction es with
  | nil => exact (alike_of_writes [] fun W _ _ => writes_done).of_iff (by simp)
  | cons e es ih =>
    obtain ⟨he, hes⟩ := List.forall_mem_cons.1 h
    exact (he.andThen (ih hes)).of_iff (by simp)

theorem encodeMembers_alike (ms : List (Bytes × Json))
    (h : ∀ m ∈ ms, Alike (fun W _ => encode (W := W) m.2) (Present m.2)) :
    Alike (fun W _ => encodeMembers (W := W) ms) (∀ m ∈ ms, Present m.2) := by
  induction ms with
  | nil => exact (alike_of_writes [] fun W _ _ => writes_done).of_iff (by simp)
  | cons m ms ih =>
    obtain ⟨hm, hms⟩ := List.forall_mem_cons.1 h
    have hkey : Alike (fun W _ => pbEncodeString (W := W) m.1) True :=
      alike_of_writes (stringBytes m.1) fun W _ _ => pbEncodeString_writes m.1
    exact (hkey.andThen (hm.andThen (ih hms))).of_iff (by simp)

/-- **Every value is attempted alike by all writers**, and to its end iff no value in it is `discarded`. -/
theorem encode_alike (v : Json) : Alike (fun W _ => encode (W := W) v) (Present v) := by
  have scalar (v : Json) (hv : Present v) : Alike (fun W _ => encode (W := W) v) (Present v) :=
    (alike_of_writes (bytes v) fun W _ _ => encode_writes v hv).of_iff (iff_of_true trivial hv)
  induction v using Json.ind with
  | array es ih =>
    have htag : Alike (fun W _ => pbEncodeTag (W := W) .arrayT (UInt64.ofNat es.length)) True :=
      alike_of_writes _ fun W _ _ => pbEncodeTag_writes _ _
    exact (htag.andThen (encodeElements_alike es ih)).of_iff (by simp [Present, every_array, presentNode])
  | object ms ih =>
    have htag : Alike (fun W _ => pbEncodeTag (W := W) .mapT (UInt64.ofNat ms.length)) True :=
      alike_of_writes _ fun W _ _ => pbEncodeTag_writes _ _
    exact (htag.andThen (encodeMembers_alike ms ih)).of_iff (by simp [Present, every_object, presentNode])
  | discarded =>
    refine ⟨[], false, by simp [Present, Json.every, presentNode], ?_⟩
    intro W _ _ w
    rw [LawfulWriter.write_nil]
    rfl
  | null => exact scalar .null rfl
  | boolean b => exact scalar (.boolean b) rfl
  | numberInteger v => exact scalar (.numberInteger v) rfl
  | numberUnsigned v => exact scalar (.numberUnsigned v) rfl
  | numberFloat bits => exact scalar (.numberFloat bits) rfl
  | string s => exact scalar (.string s) rfl
  | binary data subtype => exact scalar (.binary data subtype) rfl

end Pson

namespace Codec

theorem entry_alike (field : UInt8) (value : Json) : ∃ bs : Bytes, ∀ (W : Type) [Writer W] [LawfulWriter W],
    Emits (encodeEntry (W := W) field value) bs := by
  have htag (W : Type) [Writer W] (wireType : WireType) :
      Emits (encodeField (W := W) wireType field) [fieldTag wireType field] := emits_emit _
  cases value with
  | numberUnsigned v => exact ⟨_, fun W _ _ => (htag W .varint).comp (pbWriteVarint_emits v)⟩
  | numberInteger v => exact ⟨_, fun W _ _ => (htag W .varint).comp (pbWriteVarint_emits _)⟩
  | _ =>
    obtain ⟨bs, ok, -, h⟩ := Pson.encode_alike _
    exact ⟨_, fun W _ _ => (htag W .psonV2).comp (h W).emits⟩

/-- **A message leaves every lawful writer as one write does.** -/
theorem message_alike (order : List (UInt8 × Json)) : ∃ bs : Bytes, ∀ (W : Type) [Writer W] [LawfulWriter W],
    Emits (encode (W := W) order) bs := by
  induction order with
  | nil => exact ⟨[], fun W _ _ => emits_id⟩
  | cons e order ih =>
    obtain ⟨a, ha⟩ := entry_alike e.1 e.2
    obtain ⟨b, hb⟩ := ih
    exact ⟨a ++ b, fun W _ _ => (ha W).comp (hb W)⟩

end Codec

/-! ## What each writer holds -/

/-- what `pson_encoder<string_writer>` makes of a value -/
def valueBytes (v : Json) : Bytes := (Pson.encode v (⟨[], 0⟩ : StringWriter)).2.string

theorem message_emits (order : List (UInt8 × Json)) (W : Type) [Writer W] [LawfulWriter W] :
    Emits (Codec.encode (W := W) order) (Codec.body order) := by
  obtain ⟨bs, h⟩ := Codec.message_alike order
  have hbs : Codec.body order = bs := by
    rw [Codec.body, h StringWriter]
    exact List.nil_append bs
  exact hbs ▸ h W

theorem value_attempts (v : Json) : ∃ ok : Bool, (ok = true ↔ Pson.Present v) ∧
    ∀ (W : Type) [Writer W] [LawfulWriter W], Attempts (Pson.encode (W := W) v) (valueBytes v) ok := by
  obtain ⟨bs, ok, hok, h⟩ := Pson.encode_alike v
  have hbs : valueBytes v = bs := by
    calc valueBytes v = (Writer.write (⟨[], 0⟩ : StringWriter) bs).2.string := by
          simp only [valueBytes, h StringWriter ⟨[], 0⟩]
      _ = bs := List.nil_append bs
  exact ⟨ok, hok, hbs ▸ h⟩

/-- **The writers agree.** Whatever the fields and their order, `string_writer` and `vector_writer` append the same
bytes behind what they hold, `null_writer` counts them, and `memory_writer` holds those of them that its buffer has
room for. A value goes into a `memory_writer` iff nothing in it is `discarded` and the buffer has room for all of it. -/
theorem writers_agree :
    (∀ order : List (UInt8 × Json),
      (∀ (held : Bytes) (n : ℕ), Codec.encode order (⟨held, n⟩ : StringWriter) =
        ⟨held ++ Codec.body order, n + (Codec.body order).length⟩) ∧
      (∀ (held : Bytes) (n : ℕ), Codec.encode order (⟨held, n⟩ : VectorWriter) =
        ⟨held ++ Codec.body order, n + (Codec.body order).length⟩) ∧
      (∀ n : ℕ, Codec.encode order (⟨n⟩ : NullWriter) = ⟨n + (Codec.body order).length⟩) ∧
      ∀ buffer : Bytes,
        Writer.bytesWritten (Codec.encode order (MemoryWriter.ofBuffer buffer)) =
          min buffer.length (Codec.body order).length ∧
        (Codec.encode order (MemoryWriter.ofBuffer buffer)).buffer =
          (Codec.body order).take buffer.length ++ buffer.drop (Codec.body order).length) ∧
    ∀ (v : Json) (buffer : Bytes), (Pson.encode v (MemoryWriter.ofBuffer buffer)).1 = true ↔
      Pson.Present v ∧ (valueBytes v).length ≤ buffer.length := by
  constructor
  · intro order
    refine ⟨?string, ?vector, ?null, ?memory⟩
    case string =>
      intro held n
      exact message_emits order StringWriter _
    case vector =>
      intro held n
      exact message_emits order VectorWriter _
    case null =>
      intro n
      exact message_emits order NullWriter _
    case memory =>
      intro buffer
      have hwrite : Codec.encode order (MemoryWriter.ofBuffer buffer) =
          (MemoryWriter.write (Codec.body order) (MemoryWriter.ofBuffer buffer)).2 :=
        message_emits order MemoryWriter _
      constructor
      · calc Writer.bytesWritten (Codec.encode order (MemoryWriter.ofBuffer buffer))
            = min (0 + (Codec.body order).length) buffer.length := by
              rw [hwrite]
              exact MemoryWriter.write_current _ _
          _ = min buffer.length (Codec.body order).length := by rw [zero_add, min_comm]
      · rw [hwrite, MemoryWriter.write_buffer]
        simp [MemoryWriter.ofBuffer]
  · intro v buffer
    obtain ⟨ok, hok, h⟩ := value_attempts v
    have hfits := MemoryWriter.write_fst (valueBytes v) (MemoryWriter.ofBuffer buffer)
    calc (Pson.encode v (MemoryWriter.ofBuffer buffer)).1 = true
        ↔ ((MemoryWriter.write (valueBytes v) (MemoryWriter.ofBuffer buffer)).1 && ok) = true := by
          rw [h MemoryWriter]
          rfl
      _ ↔ Pson.Present v ∧ (valueBytes v).length ≤ buffer.length := by
          rw [Bool.and_eq_true, hok, hfits, and_comm]
          simp [MemoryWriter.ofBuffer]

/-- an array with a `discarded` element is written up to that element, and refused whatever the room -/
theorem discarded_element : valueBytes (.array [.discarded]) = [0xE1] ∧
    (Pson.encode (.array [.discarded]) (MemoryWriter.ofBuffer [0, 0])).1 = false ∧
    ¬ ((Pson.encode (.array [.discarded]) (MemoryWriter.ofBuffer [0, 0])).1 = true ↔
      (valueBytes (.array [.discarded])).length ≤ [0, 0].length) := by
  decide

end Iotmp
