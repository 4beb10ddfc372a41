/-
Where the two write paths meet: the frames on the wire, and writes that fail late.

- `frames_whole`: if no write puts bytes on a socket while another one has only a part of its frame there, the bytes on
  every socket are at all times a prefix of complete frames. Every frame on the wire is one that was encoded.
- `failures_own_iff`: a write that fails leaves later connections alone if and only if, when it fails, its socket is the
  current one, or the current connection is neither open nor connected.
- Counterexamples: `keep_alive_inside_frame`, a KEEP_ALIVE of the queue within the frame of a `write_message`;
  `late_failure_closes_successor`, a write of the first connection that fails when the second one is up.
-/
import Mathlib.Tactic
import Iotmp.Client.WriteQueue
import Iotmp.Core.CodecRoundTrip

namespace Iotmp

/-! ## How a frame begins -/

/-- nothing is taken back from the string -/
def Appends (f : StringWriter → StringWriter) : Prop := ∀ w, w.string <+: (f w).string

theorem Emits.appends {f : StringWriter → StringWriter} {bs : Bytes} (h : Emits f bs) : Appends f := by
  intro w
  rw [h w]
  exact List.prefix_append _ _

theorem Appends.andThen {p q : Put StringWriter} (hp : Appends fun w => (p w).2) (hq : Appends fun w => (q w).2) :
    Appends fun w => (p.andThen q w).2 := by
  intro w
  have hw : w.string <+: (p w).2.string := hp w
  rcases hpw : p w with ⟨_ | _, w'⟩
  · rw [hpw] at hw
    simpa [Put.andThen, hpw] using hw
  · rw [hpw] at hw
    simpa [Put.andThen, hpw] using hw.trans (hq w')

/-- also when it stops at a value it refuses -/
theorem Pson.encode_appends (v : Json) : Appends fun w => (Pson.encode v w).2 := by
  induction v using Json.ind with
  | array es ih =>
    apply Appends.andThen (Pson.pbEncodeTag_writes _ _).emits.appends
    induction es with
    | nil => exact fun w => List.prefix_rfl
    | cons e es ihes =>
      exact (ih e List.mem_cons_self).andThen (ihes fun e' he' => ih e' (List.mem_cons_of_mem e he'))
  | object ms ih =>
    apply Appends.andThen (Pson.pbEncodeTag_writes _ _).emits.appends
    induction ms with
    | nil => exact fun w => List.prefix_rfl
    | cons m ms ihms =>
      apply Appends.andThen (Pson.pbEncodeString_writes m.1).emits.appends
      exact (ih m List.mem_cons_self).andThen (ihms fun m' hm' => ih m' (List.mem_cons_of_mem m hm'))
  | discarded => exact fun w => List.prefix_rfl
  | null => exact (Pson.encode_writes .null rfl).emits.appends
  | boolean b => exact (Pson.encode_writes (.boolean b) rfl).emits.appends
  | numberInteger v => exact (Pson.encode_writes (.numberInteger v) rfl).emits.appends
  | numberUnsigned v => exact (Pson.encode_writes (.numberUnsigned v) rfl).emits.appends
  | numberFloat bits => exact (Pson.encode_writes (.numberFloat bits) rfl).emits.appends
  | string s => exact (Pson.encode_writes (.string s) rfl).emits.appends
  | binary data subtype => exact (Pson.encode_writes (.binary data subtype) rfl).emits.appends

namespace Codec

/-- an entry begins with its tag -/
theorem encodeEntry_begins (field : UInt8) (value : Json) (w : StringWriter) :
    ∃ wireType ∈ [WireType.varint, WireType.psonV2],
      w.string ++ [fieldTag wireType field] <+: (encodeEntry field value w).string := by
  cases value with
  | numberUnsigned v => exact ⟨.varint, by simp, (pbWriteVarint_emits v).appends (encodeField .varint field w)⟩
  | numberInteger v => exact ⟨.varint, by simp, (pbWriteVarint_emits _).appends (encodeField .varint field w)⟩
  | _ => exact ⟨.psonV2, by simp, Pson.encode_appends _ (encodeField .psonV2 field w)⟩

theorem encode_appends (fields : List (UInt8 × Json)) : Appends (encode fields) := by
  induction fields with
  | nil => exact fun w => List.prefix_rfl
  | cons e fields ih =>
    intro w
    obtain ⟨wireType, -, hbegins⟩ := encodeEntry_begins e.1 e.2 w
    calc w.string <+: w.string ++ [fieldTag wireType e.1] := List.prefix_append _ _
      _ <+: (encodeEntry e.1 e.2 w).string := hbegins
      _ <+: (encode (e :: fields) w).string := ih _

/-- the low three bits of a tag are its wire type -/
theorem fieldTag_low (wireType : WireType) (field : UInt8) :
    (fieldTag wireType field).toNat % 8 = wireType.code.toNat % 8 := by
  have hshift : (field <<< 3).toNat % 8 = 0 := by
    rw [UInt8.toNat_shiftLeft]
    have h3 : (3 : UInt8).toNat % 8 = 3 := rfl
    rw [h3, Nat.shiftLeft_eq]
    omega
  calc (fieldTag wireType field).toNat % 8
      = (field <<< 3).toNat % 8 ||| wireType.code.toNat % 8 := by
        rw [fieldTag, UInt8.toNat_or]
        exact Nat.or_mod_two_pow (n := 3)
    _ = wireType.code.toNat % 8 := by rw [hshift, Nat.zero_or]

/-- a frame that begins with a type and a size below 128, and goes on: the size is not 0, and the next byte is a tag -/
theorem encodeMessage_begins {type : MessageType} {fields : List (UInt8 × Json)} {typeByte sizeByte tag : UInt8}
    {rest : Bytes} (htype : typeByte.toNat < 128) (hsize : sizeByte.toNat < 128) (hpos : sizeByte ≠ 0)
    (h : [typeByte, sizeByte, tag] <+: encodeMessage type fields ++ rest) : tag.toNat % 8 = 0 ∨ tag.toNat % 8 = 2 := by
  have hhead : ∀ size : UInt64,
      (pbWriteVarint size (pbWriteVarint type.code.toUInt64 ⟨[], 0⟩ : StringWriter)).string =
        Leb128.encode type.code.toUInt64.toNat ++ Leb128.encode size.toNat := by
    intro size
    rw [pbWriteVarint_emits size, pbWriteVarint_emits type.code.toUInt64]
    rfl
  cases fields with
  | nil =>
    have hframe : encodeMessage type [] =
        Leb128.encode type.code.toUInt64.toNat ++ Leb128.encode (UInt64.ofNat 0).toNat := hhead (UInt64.ofNat 0)
    rw [hframe, List.append_assoc] at h
    have hzero := (Leb128.of_small_first hsize (Leb128.of_small_first htype h).2).1
    exact absurd (UInt8.toNat_inj.1 hzero.symm) hpos
  | cons e fields =>
    obtain ⟨bodySize, hframe⟩ : ∃ bodySize, encodeMessage type (e :: fields) =
        (encode (e :: fields)
          (pbWriteVarint bodySize (pbWriteVarint type.code.toUInt64 ⟨[], 0⟩ : StringWriter))).string :=
      ⟨_, rfl⟩
    obtain ⟨wireType, hwireType, hentry⟩ :=
      encodeEntry_begins e.1 e.2 (pbWriteVarint bodySize (pbWriteVarint type.code.toUInt64 ⟨[], 0⟩))
    obtain ⟨tail, htail⟩ := hentry.trans (encode_appends fields _)
    have hbytes : encodeMessage type (e :: fields) = Leb128.encode type.code.toUInt64.toNat ++
        (Leb128.encode bodySize.toNat ++ (fieldTag wireType e.1 :: tail)) := by
      rw [hframe]
      calc _ = _ := htail.symm
        _ = _ := by simp [hhead]
    rw [hbytes, List.append_assoc, List.append_assoc] at h
    have hbody := (Leb128.of_small_first hsize (Leb128.of_small_first htype h).2).2
    obtain ⟨rfl, -⟩ := List.cons_prefix_cons.1 hbody
    rcases List.mem_pair.1 hwireType with rfl | rfl
    · exact .inl (fieldTag_low .varint e.1)
    · exact .inr (fieldTag_low .psonV2 e.1)

end Codec

end Iotmp

namespace Iotmp.WritePath

/-! ## Parts of frames -/

def IsFrame (f : Bytes) : Prop := ∃ m : Outgoing, f = m.encoded

theorem isFrame_nonempty : ∃ f, IsFrame f := ⟨_, plain .keepAlive, rfl⟩

/-- write `i` has put some of its bytes on socket `k`, but not all -/
def Partial (s : WritePath) (k i : ℕ) (w : PendingWrite) : Prop :=
  s.pending i = some w ∧ w.socket = k ∧ 0 < w.written ∧ w.written < w.frame.length

/-- bytes are put on a socket where no other write stands in the middle of its frame -/
def Exclusive (s : WritePath) : WriteEvent → Prop
  | .put i n =>
    ∀ w, s.pending i = some w → s.isOpen w.socket = true → w.written < w.frame.length → 0 < n →
      ∀ j v, s.Partial w.socket j v → j = i
  | _ => True

/-- `part` is what the only unfinished write on socket `k` has put there, if there is one -/
def Unfinished (s : WritePath) (k : ℕ) (part : Bytes) : Prop :=
  (part = [] ∧ ∀ i w, ¬ s.Partial k i w) ∨
    ∃ i w, s.Partial k i w ∧ part = w.frame.take w.written ∧ ∀ j v, s.Partial k j v → j = i

/-- the bytes on a socket are complete frames and the beginning of one more -/
def Legible (s : WritePath) (k : ℕ) : Prop :=
  ∃ (whole : List Bytes) (part f : Bytes), (∀ g ∈ whole, IsFrame g) ∧ IsFrame f ∧ s.wire k = whole.flatten ++ part ∧
    part <+: f ∧ (s.isOpen k = true → s.Unfinished k part)

structure Framed (s : WritePath) : Prop where
  current : ∀ k, s.isOpen k = true → k = s.socket
  ahead : ∀ k, s.socket < k → s.wire k = []
  fresh : ∀ i, s.spawned ≤ i → s.coroutines i = none
  queue : ∀ f ∈ s.writeQueue, IsFrame f
  pending : ∀ i w, s.pending i = some w → IsFrame w.frame ∧ w.written ≤ w.frame.length ∧ w.socket ≤ s.socket
  wire : ∀ k, s.Legible k

theorem Legible.congr {s s' : WritePath} {k : ℕ} (h : s.Legible k) (hw : s'.wire k = s.wire k)
    (ho : s'.isOpen k = true → s.isOpen k = true ∧ ∀ i w, s'.Partial k i w ↔ s.Partial k i w) : s'.Legible k := by
  obtain ⟨whole, part, f, hwhole, hf, hwire, hpart, hopen⟩ := h
  refine ⟨whole, part, f, hwhole, hf, hw.trans hwire, hpart, ?_⟩
  intro hk
  obtain ⟨hk', hiff⟩ := ho hk
  rcases hopen hk' with ⟨hnil, hnone⟩ | ⟨i, w, hi, heq, hone⟩
  · exact .inl ⟨hnil, fun i w hi => hnone i w ((hiff i w).1 hi)⟩
  · exact .inr ⟨i, w, (hiff i w).2 hi, heq, fun j v hj => hone j v ((hiff j v).1 hj)⟩

/-- **A coroutine that begins or ends outside its frame leaves the wire legible.** -/
theorem Framed.setCoroutine {s : WritePath} (h : s.Framed) {i : ℕ} {c : Option Coroutine} (hi : i < s.spawned)
    (hold : ∀ w, s.pending i = some w → w.written = 0 ∨ w.written = w.frame.length)
    (hc : ∀ w, c = some (.write w) → IsFrame w.frame ∧ w.written = 0 ∧ w.socket ≤ s.socket) :
    (s.setCoroutine i c).Framed := by
  have hnew : ∀ w, c.bind Coroutine.pendingWrite = some w → c = some (.write w) := by
    intro w hw
    obtain ⟨c', rfl, hc'⟩ := Option.bind_eq_some_iff.1 hw
    cases c' with
    | processWriteQueue => exact absurd hc' (by simp [Coroutine.pendingWrite])
    | write w' => rw [Option.some.inj hc']
  exact
    { current := h.current
      ahead := h.ahead
      fresh := by
        intro j hj
        have hne : j ≠ i := by
          have hj' : s.spawned ≤ j := hj
          omega
        simp only [WritePath.setCoroutine, Function.update_of_ne hne]
        exact h.fresh j hj
      queue := h.queue
      pending := by
        intro j w hj
        rw [pending_setCoroutine] at hj
        split_ifs at hj with hji
        · obtain ⟨hframe, hzero, hsock⟩ := hc w (hnew w hj)
          exact ⟨hframe, by omega, hsock⟩
        · exact h.pending j w hj
      wire := by
        intro k
        have hkept : (s.setCoroutine i c).wire k = s.wire k := rfl
        apply (h.wire k).congr hkept
        intro hk
        refine ⟨hk, ?_⟩
        intro j w
        by_cases hji : j = i
        · -- neither what was there nor what is there now is in the middle of its frame
          constructor
          · rintro ⟨hp, -, hpos, -⟩
            rw [pending_setCoroutine, if_pos hji] at hp
            obtain ⟨-, hzero, -⟩ := hc w (hnew w hp)
            omega
          · rintro ⟨hp, -, hpos, hlt⟩
            rw [hji] at hp
            rcases hold w hp with hw | hw
            · omega
            · omega
        · rw [Partial, Partial, pending_setCoroutine, if_neg hji] }

/-- on the socket of a write that goes on alone, its own bytes are the unfinished ones -/
theorem Unfinished.eq_take {s : WritePath} {i : ℕ} {w : PendingWrite} {part : Bytes} (h : s.Unfinished w.socket part)
    (hi : s.pending i = some w) (hlt : w.written < w.frame.length)
    (halone : ∀ j v, s.Partial w.socket j v → j = i) : part = w.frame.take w.written := by
  rcases h with ⟨rfl, hnone⟩ | ⟨j, v, hv, heq, -⟩
  · have hzero : w.written = 0 := by
      by_contra hpos
      exact hnone i w ⟨hi, rfl, by omega, hlt⟩
    rw [hzero, List.take_zero]
  · have hji := halone j v hv
    have hsame : v = w := by
      have hv' := hv.1
      rw [hji, hi] at hv'
      exact (Option.some.inj hv').symm
    rw [heq, hsame]

/-- the wires of the other sockets stay as they are -/
theorem legible_put_ne {s : WritePath} {i k : ℕ} {w : PendingWrite} (h : s.Legible k) (hi : s.pending i = some w)
    (hk : k ≠ w.socket) (n : ℕ) : (s.put i w n).Legible k := by
  apply h.congr
  · simp [WritePath.put, WritePath.setCoroutine, Function.update_of_ne hk]
  · intro hopen
    refine ⟨hopen, ?_⟩
    intro j v
    rw [Partial, Partial, pending_put]
    by_cases hji : j = i
    · rw [if_pos hji, hji, hi]
      constructor
      · rintro ⟨hv, hsk, -⟩
        rw [← Option.some.inj hv] at hsk
        exact absurd hsk.symm hk
      · rintro ⟨hv, hsk, -⟩
        rw [← Option.some.inj hv] at hsk
        exact absurd hsk.symm hk
    · rw [if_neg hji]

/-- nor does a wire change on which nothing is put -/
theorem legible_put_nothing {s : WritePath} {i : ℕ} {w : PendingWrite} (h : s.Legible w.socket)
    (hi : s.pending i = some w) (hle : w.written ≤ w.frame.length) {n : ℕ}
    (hnone : ¬ (w.written < w.frame.length ∧ 0 < n)) : (s.put i w n).Legible w.socket := by
  have hnothing : (w.frame.drop w.written).take n = [] := by
    rw [List.take_eq_nil_iff, List.drop_eq_nil_iff]
    omega
  have hsame : min (w.written + n) w.frame.length = w.written := by omega
  apply h.congr
  · simp [WritePath.put, WritePath.setCoroutine, hnothing]
  · intro hopen
    refine ⟨hopen, ?_⟩
    intro j v
    rw [Partial, Partial, pending_put, hsame]
    by_cases hji : j = i
    · rw [if_pos hji, hji, hi]
    · rw [if_neg hji]

/-- a write that goes on alone finishes its frame, or is the only unfinished one -/
theorem legible_put_self {s : WritePath} {i : ℕ} {w : PendingWrite} (h : s.Legible w.socket)
    (hi : s.pending i = some w) (hframe : IsFrame w.frame) (hopen : s.isOpen w.socket = true) {n : ℕ}
    (hmore : w.written < w.frame.length) (hn : 0 < n) (halone : ∀ j v, s.Partial w.socket j v → j = i) :
    (s.put i w n).Legible w.socket := by
  obtain ⟨whole, part, f, hwhole, hf, hwire, hpart, hunfinished⟩ := h
  obtain rfl := (hunfinished hopen).eq_take hi hmore halone
  have hbytes : (s.put i w n).wire w.socket = whole.flatten ++ w.frame.take (w.written + n) := by
    simp [WritePath.put, WritePath.setCoroutine, hwire, List.take_add]
  have hnone : ∀ j v, (s.put i w n).Partial w.socket j v → j = i := by
    intro j v hv
    by_contra hji
    apply hji
    apply halone j v
    rwa [Partial, pending_put, if_neg hji] at hv
  by_cases hend : w.frame.length ≤ w.written + n
  · -- the frame is complete
    refine ⟨whole ++ [w.frame], [], w.frame, ?_, hframe, ?_, List.nil_prefix, ?_⟩
    · intro g hg
      rcases List.mem_append.1 hg with hg | hg
      · exact hwhole g hg
      · rw [List.mem_singleton.1 hg]
        exact hframe
    · rw [hbytes, List.take_of_length_le hend]
      simp
    · intro _
      refine .inl ⟨rfl, ?_⟩
      intro j v hv
      have hji := hnone j v hv
      obtain ⟨hp, -, -, hshort⟩ := hv
      rw [pending_put, if_pos hji] at hp
      rw [← Option.some.inj hp] at hshort
      simp only at hshort
      omega
  · refine ⟨whole, w.frame.take (w.written + n), w.frame, hwhole, hframe, hbytes, List.take_prefix _ _, ?_⟩
    intro _
    refine .inr ⟨i, { w with written := min (w.written + n) w.frame.length }, ⟨?_, rfl, ?_, ?_⟩, ?_, hnone⟩
    · rw [pending_put, if_pos rfl]
    · simp only
      omega
    · simp only
      omega
    · have hmin : min (w.written + n) w.frame.length = w.written + n := by omega
      rw [hmin]

/-- **A write that puts bytes where no other one is unfinished leaves the wire legible.** -/
theorem Framed.put {s : WritePath} (h : s.Framed) {i : ℕ} {w : PendingWrite} (hi : s.pending i = some w)
    (hopen : s.isOpen w.socket = true) (n : ℕ)
    (halone : w.written < w.frame.length → 0 < n → ∀ j v, s.Partial w.socket j v → j = i) : (s.put i w n).Framed := by
  obtain ⟨hframe, hle, hsock⟩ := h.pending i w hi
  have hlt := lt_spawned h.fresh (coroutine_of_pending hi)
  exact
    { current := h.current
      ahead := by
        intro k hk
        have hne : k ≠ w.socket := by
          rintro rfl
          exact absurd hk (Nat.not_lt.2 hsock)
        simp only [WritePath.put, WritePath.setCoroutine, Function.update_of_ne hne]
        exact h.ahead k hk
      fresh := by
        intro j hj
        have hj' : s.spawned ≤ j := hj
        simp only [WritePath.put, WritePath.setCoroutine]
        rw [Function.update_of_ne (by omega)]
        exact h.fresh j hj'
      queue := h.queue
      pending := by
        intro j v hv
        rw [pending_put] at hv
        split_ifs at hv
        · rw [← Option.some.inj hv]
          exact ⟨hframe, Nat.min_le_right _ _, hsock⟩
        · exact h.pending j v hv
      wire := by
        intro k
        by_cases hk : k = w.socket
        · rw [hk]
          by_cases hmore : w.written < w.frame.length ∧ 0 < n
          · exact legible_put_self (h.wire _) hi hframe hopen hmore.1 hmore.2 (halone hmore.1 hmore.2)
          · exact legible_put_nothing (h.wire _) hi hle hmore
        · exact legible_put_ne (h.wire k) hi hk n }

/-! ## One event -/

theorem Framed.processWriteQueue {s : WritePath} (h : s.Framed) {i : ℕ} (hi : i < s.spawned)
    (hold : ∀ w, s.pending i = some w → w.written = 0 ∨ w.written = w.frame.length) :
    (s.processWriteQueue i).Framed := by
  have hends : ({ s with writeInProgress := false }.setCoroutine i none).Framed := by
    have hflag : ({ s with writeInProgress := false } : WritePath).Framed := { h with }
    exact hflag.setCoroutine hi hold (by simp)
  rcases hq : s.writeQueue with _ | ⟨data, queue⟩
  · rw [processWriteQueue_nil hq]
    exact hends
  · rcases hup : (s.connected && decide (s.socket ≠ 0)) with _ | _
    · rw [processWriteQueue_down hup]
      exact hends
    · simp only [Bool.and_eq_true, decide_eq_true_eq] at hup
      rw [processWriteQueue_cons hq hup.1 hup.2]
      have hqueue : ({ s with writeQueue := queue } : WritePath).Framed := by
        refine { h with queue := ?_ }
        intro f hf
        apply h.queue
        rw [hq]
        exact List.mem_cons_of_mem data hf
      apply hqueue.setCoroutine hi hold
      intro w hw
      obtain rfl : _ = w := by simpa using hw
      refine ⟨h.queue data ?_, rfl, le_rfl⟩
      rw [hq]
      exact List.mem_cons_self

theorem Framed.spawn {s : WritePath} (h : s.Framed) {c : Coroutine}
    (hc : ∀ w, c = .write w → IsFrame w.frame ∧ w.written = 0 ∧ w.socket ≤ s.socket) : (s.spawn c).Framed := by
  have hmore : ({ s with spawned := s.spawned + 1 } : WritePath).Framed := by
    refine { h with fresh := ?_ }
    intro j hj
    have hj' : s.spawned + 1 ≤ j := hj
    exact h.fresh j (by omega)
  apply hmore.setCoroutine (i := s.spawned) (Nat.lt_succ_self s.spawned)
  · intro w hw
    have hfree : s.coroutines s.spawned = some (.write w) := coroutine_of_pending hw
    rw [h.fresh s.spawned le_rfl] at hfree
    exact absurd hfree (by simp)
  · intro w hw
    exact hc w (Option.some.inj hw)

/-- where no socket is open, the wires stay as they are -/
theorem Framed.closed {s s' : WritePath} (h : s.Framed) (hclosed : ∀ k, s'.isOpen k = false) (hwire : s'.wire = s.wire)
    (hsocket : s'.socket = s.socket) (hspawned : s'.spawned = s.spawned) (hqueue : s'.writeQueue = s.writeQueue)
    (hcoroutines : ∀ j, s'.coroutines j = s.coroutines j ∨ s'.coroutines j = none) : s'.Framed where
  current k hk := absurd ((hclosed k).symm.trans hk) (by simp)
  ahead := by
    rw [hwire, hsocket]
    exact h.ahead
  fresh := by
    intro j hj
    rcases hcoroutines j with hsame | hnone
    · rw [hsame]
      exact h.fresh j (hspawned ▸ hj)
    · exact hnone
  queue := by
    rw [hqueue]
    exact h.queue
  pending := by
    intro j w hj
    have hc := coroutine_of_pending hj
    rcases hcoroutines j with hsame | hnone
    · rw [hsocket]
      exact h.pending j w (pending_of_coroutine (hsame.symm.trans hc))
    · exact absurd (hnone.symm.trans hc) (by simp)
  wire := by
    intro k
    apply (h.wire k).congr (by rw [hwire])
    intro hk
    exact absurd ((hclosed k).symm.trans hk) (by simp)

/-- a new connection begins with an empty wire -/
theorem Framed.connect {s : WritePath} (h : s.Framed) : s.connect.Framed := by
  have hopen : ∀ k, s.connect.isOpen k = true → k = s.socket + 1 := by
    intro k hk
    by_contra hne
    simp only [WritePath.connect, Function.update_of_ne hne] at hk
    by_cases hks : k = s.socket
    · rw [hks, Function.update_self] at hk
      exact absurd hk (by simp)
    · rw [Function.update_of_ne hks] at hk
      exact hks (h.current k hk)
  exact
    { current := hopen
      ahead := by
        intro k hk
        have hk' : s.socket + 1 < k := hk
        exact h.ahead k (by omega)
      fresh := h.fresh
      queue := h.queue
      pending := by
        intro i w hi
        obtain ⟨hframe, hle, hsock⟩ := h.pending i w hi
        have hmore : w.socket ≤ s.socket + 1 := by omega
        exact ⟨hframe, hle, hmore⟩
      wire := by
        intro k
        by_cases hk : k = s.socket + 1
        · obtain ⟨f, hf⟩ := isFrame_nonempty
          refine ⟨[], [], f, by simp, hf, ?_, List.nil_prefix, ?_⟩
          · exact h.ahead k (by omega)
          · intro _
            refine .inl ⟨rfl, ?_⟩
            rintro i w ⟨hi, hsock, -⟩
            have hle := (h.pending i w hi).2.2
            omega
        · have hkept : s.connect.wire k = s.wire k := rfl
          apply (h.wire k).congr hkept
          intro hopenk
          exact absurd (hopen k hopenk) hk }

theorem Framed.sendMessage {s : WritePath} (h : s.Framed) (m : Outgoing) : (s.sendMessage m).Framed := by
  by_cases hlogs : m.message.Logs s.logging
  · have hqueue : ∀ sent,
        ({ s with writeQueue := s.writeQueue ++ [m.encoded], sent := sent } : WritePath).Framed := by
      intro sent
      refine { h with queue := ?_ }
      intro f hf
      rcases List.mem_append.1 hf with hf | hf
      · exact h.queue f hf
      · rw [List.mem_singleton.1 hf]
        exact ⟨m, rfl⟩
    rcases hflag : s.writeInProgress with _ | _
    · rw [sendMessage_spawned hlogs hflag]
      have hset : ∀ t : WritePath, t.Framed → ({ t with writeInProgress := true } : WritePath).Framed :=
        fun t ht => { ht with }
      exact (hset _ (hqueue _)).spawn (by simp)
    · rw [sendMessage_queued hlogs hflag]
      exact hqueue _
  · rw [sendMessage_unlogged hlogs]
    exact h

/-- `fail` closes the only socket that can be open -/
theorem Framed.fail {s : WritePath} (h : s.Framed) (i : ℕ) (w : PendingWrite) : (s.fail i w).Framed := by
  have hclosed : ∀ k, Function.update s.isOpen s.socket false k = false := by
    intro k
    by_cases hk : k = s.socket
    · rw [hk, Function.update_self]
    · rw [Function.update_of_ne hk]
      by_contra hopen
      exact hk (h.current k (by simpa using hopen))
  have hcoroutines : ∀ j, Function.update s.coroutines i none j = s.coroutines j ∨
      Function.update s.coroutines i none j = none := by
    intro j
    by_cases hj : j = i
    · rw [hj, Function.update_self]
      exact .inr rfl
    · rw [Function.update_of_ne hj]
      exact .inl rfl
  simp only [WritePath.fail]
  split_ifs
  · exact h.closed hclosed rfl rfl rfl rfl hcoroutines
  · exact h.closed hclosed rfl rfl rfl rfl hcoroutines

/-- **One event.** -/
theorem Framed.step {s : WritePath} (h : s.Framed) (e : WriteEvent) (he : s.Exclusive e) : (step s e).Framed := by
  cases e with
  | sendMessage m => exact h.sendMessage m
  | writeMessage m =>
    rw [WritePath.step, writeMessage]
    split_ifs
    · apply h.spawn
      intro w hw
      obtain rfl : _ = w := by simpa using hw
      exact ⟨⟨m, rfl⟩, rfl, le_rfl⟩
    · exact h
  | begin i =>
    rw [WritePath.step]
    split_ifs with hi
    · apply h.processWriteQueue (lt_spawned h.fresh hi)
      intro w hw
      rw [coroutine_of_pending hw] at hi
      exact absurd hi (by simp)
    · exact h
  | put i n =>
    rw [WritePath.step]
    rcases hi : s.pending i with _ | w
    · exact h
    · simp only
      split_ifs with hopen
      · exact h.put hi hopen n fun hlt hn => he w hi hopen hlt hn
      · exact h
  | complete i =>
    rw [WritePath.step]
    rcases hi : s.pending i with _ | w
    · exact h
    · simp only
      split_ifs with hdone
      · have hend : ∀ v, s.pending i = some v → v.written = 0 ∨ v.written = v.frame.length := by
          intro v hv
          rw [hi] at hv
          rw [← Option.some.inj hv]
          exact .inr hdone.2
        have hlt := lt_spawned h.fresh (coroutine_of_pending hi)
        rw [complete]
        split_ifs
        · have hlog : ({ s with completed := s.completed ++ [w.frame] } : WritePath).Framed := { h with }
          exact hlog.processWriteQueue hlt hend
        · exact h.setCoroutine hlt hend (by simp)
      · exact h
  | fail i =>
    rw [WritePath.step]
    rcases hi : s.pending i with _ | w
    · exact h
    · exact h.fail i w
  | lost => exact { h with }
  | connect =>
    rw [WritePath.step]
    split_ifs
    · exact h
    · exact h.connect
  | authenticated => exact { h with }

/-! ## Runs -/

theorem framed_init : Framed {} where
  current := by simp
  ahead := by simp
  fresh := by simp
  queue := by simp
  pending := by
    intro i w hi
    exact absurd (coroutine_of_pending hi) (by simp)
  wire := by
    intro k
    obtain ⟨f, hf⟩ := isFrame_nonempty
    exact ⟨[], [], f, by simp, hf, rfl, List.nil_prefix, by simp⟩

/-- **Frames are whole on the wire**, as long as no write puts bytes within the frame of another one. -/
theorem frames_whole (events : List WriteEvent) (h : Run.Steps step Exclusive {} events) (k : ℕ) :
    ∃ messages : List Outgoing, (run {} events).wire k <+: (messages.map Outgoing.encoded).flatten := by
  have hframed := Run.invariant (I := Framed) (p := Exclusive) (fun s e hs he => hs.step e he) {} events framed_init h
  obtain ⟨whole, part, f, hwhole, ⟨m, rfl⟩, hwire, hpart, -⟩ := hframed.wire k
  have hmessages : ∃ messages : List Outgoing, messages.map Outgoing.encoded = whole := by
    clear hwire
    induction whole with
    | nil => exact ⟨[], rfl⟩
    | cons g whole ih =>
      obtain ⟨messages, rfl⟩ := ih fun g' hg' => hwhole g' (List.mem_cons_of_mem g hg')
      obtain ⟨m', rfl⟩ := hwhole g List.mem_cons_self
      exact ⟨m' :: messages, rfl⟩
  obtain ⟨messages, rfl⟩ := hmessages
  refine ⟨messages ++ [m], ?_⟩
  rw [run, hwire]
  simpa using hpart

theorem frames_whole_half : ∃ messages : List Outgoing,
    (run {} [.connect, .authenticated, .sendMessage (plain .keepAlive), .begin 0, .put 0 1]).wire 1 <+:
      (messages.map Outgoing.encoded).flatten := by
  apply frames_whole
  refine ⟨trivial, trivial, trivial, trivial, ?_, trivial⟩
  intro _ _ _ _ _ j v hj
  rcases j with _ | j
  · rfl
  · have hnone :
        (run {} [.connect, .authenticated, .sendMessage (plain .keepAlive), .begin 0]).coroutines (j + 1) = none :=
      rfl
    exact absurd (hnone.symm.trans (coroutine_of_pending hj.1)) (by simp)

/-- `call_endpoint("up", confirm = true)`, with stream id 300 -/
def callEndpoint : Outgoing where
  message :=
    { messageType := .run
      fields := ((SortedMap.empty.set Field.STREAM_ID (.numberUnsigned 300)).set Field.PARAMETERS
        (.string [0x75, 0x70])).set Field.RESOURCE (.numberUnsigned 4) }
  fields := [(Field.STREAM_ID, .numberUnsigned 300), (Field.PARAMETERS, .string [0x75, 0x70]),
    (Field.RESOURCE, .numberUnsigned 4)]
  perm := List.Perm.refl _

/-- **A KEEP_ALIVE within a frame**: `process_write_queue` puts its first byte after the first one of a
`write_message`. -/
theorem keep_alive_inside_frame :
    ¬ ∃ messages : List Outgoing,
      (run {} [.connect, .authenticated, .sendMessage (plain .keepAlive), .begin 0, .writeMessage callEndpoint,
        .put 1 1, .put 0 1, .put 1 1]).wire 1 <+: (messages.map Outgoing.encoded).flatten := by
  have hwire : (run {} [.connect, .authenticated, .sendMessage (plain .keepAlive), .begin 0, .writeMessage callEndpoint,
      .put 1 1, .put 0 1, .put 1 1]).wire 1 = [0x06, 0x05, 0x09] := by
    decide
  rw [hwire]
  rintro ⟨_ | ⟨m, messages⟩, h⟩
  · exact absurd h (by decide)
  · have htag := Codec.encodeMessage_begins (by decide) (by decide) (by decide) h
    exact absurd htag (by decide)

/-! ## Writes that fail late -/

/-- the failure of a write that was begun on another connection touches neither the current socket nor `connected_` -/
def FailuresOwn (s : WritePath) : WriteEvent → Prop
  | .fail i =>
    ∀ w, s.pending i = some w → w.socket ≠ s.socket →
      (step s (.fail i)).isOpen s.socket = s.isOpen s.socket ∧ (step s (.fail i)).connected = s.connected
  | _ => True

/-- a write fails while its connection is the current one, or while there is nothing to tear down -/
def Timely (s : WritePath) : WriteEvent → Prop
  | .fail i => ∀ w, s.pending i = some w → w.socket = s.socket ∨ (s.isOpen s.socket = false ∧ s.connected = false)
  | _ => True

/-- whatever the write, `fail` closes the current socket -/
theorem step_fail {s : WritePath} {i : ℕ} {w : PendingWrite} (hi : s.pending i = some w) :
    (step s (.fail i)).isOpen s.socket = false ∧ (step s (.fail i)).connected = false := by
  have hstep : step s (.fail i) = s.fail i w := by
    rw [step]
    simp only [hi]
  rw [hstep]
  simp only [fail]
  split_ifs
  · exact ⟨Function.update_self _ _ _, rfl⟩
  · exact ⟨Function.update_self _ _ _, rfl⟩

theorem failuresOwn_iff_timely (s : WritePath) (e : WriteEvent) : s.FailuresOwn e ↔ s.Timely e := by
  cases e with
  | fail i =>
    constructor
    · intro h w hi
      by_cases hw : w.socket = s.socket
      · exact .inl hw
      · obtain ⟨hopen, hconn⟩ := h w hi hw
        obtain ⟨hclosed, hdown⟩ := step_fail hi
        exact .inr ⟨hopen.symm.trans hclosed, hconn.symm.trans hdown⟩
    · intro h w hi hw
      obtain ⟨hclosed, hdown⟩ := step_fail hi
      rcases h w hi with hown | ⟨hopen, hconn⟩
      · exact absurd hown hw
      · exact ⟨hclosed.trans hopen.symm, hdown.trans hconn.symm⟩
  | _ => exact Iff.rfl

/-- **Late failures.** In a run, every write that fails tears down its own connection only, if and only if each one
fails in time. -/
theorem failures_own_iff (s : WritePath) (events : List WriteEvent) :
    Run.Steps step FailuresOwn s events ↔ Run.Steps step Timely s events :=
  Run.Steps.congr failuresOwn_iff_timely s events

/-- **A write of the first connection closes the second one's socket.** -/
theorem late_failure_closes_successor :
    ¬ Run.Steps step FailuresOwn {} [.connect, .authenticated, .sendMessage (plain .keepAlive), .begin 0, .lost,
      .connect, .authenticated, .fail 0] := by
  intro h
  obtain ⟨-, -, -, -, -, -, -, hfail, -⟩ := h
  obtain ⟨hopen, -⟩ := hfail ⟨1, (plain .keepAlive).encoded, 0, true⟩ (by decide) (by decide)
  exact absurd hopen (by decide)

end Iotmp.WritePath
