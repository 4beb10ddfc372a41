/-
What a decode costs (`iotmp_decoder.hpp`, `pson_decoder.hpp`, `memory_reader`).

The log of a decode lists what it does, in order: every call of `read`, every JSON node it creates, every test of the
loop of `iotmp_decoder::decode`. The log functions follow the decoder's own control flow. An array or a map may announce
up to `2 ^ 64 - 1` elements; each costs at least a byte, so the input ends before the count does.

- `DecodeEvent.Inside n`: what the code relies on at an event. A read that succeeds stays in the buffer, and the test of
  `memory_reader::read`, which is in `size_t`, decides so; the difference in the loop does not wrap; fuel does not run
  out.
- `Accounts`: a piece of a decode keeps its reads inside and pays a byte for every node, `spare` bytes left over and
  `owed` bytes short. It composes (`Accounts.trans`).
- `value_accounts`: a value that decodes pays for the node it goes into; the one that fails does not.
- `decode_bounded`: the whole body.
-/
import Mathlib.Tactic
import Iotmp.Core.Codec

namespace Iotmp

/-! ## Events -/

/-- a step of a decode that costs something -/
inductive DecodeEvent where
  /-- `read(target, size)` at an offset, and whether it succeeds -/
  | read (offset size : ℕ) (ok : Bool)
  /-- an entry of the message, an element or a member comes to be -/
  | node
  /-- the test of the loop of `decode` -/
  | test (size startRead bytesRead : ℕ)
  | outOfFuel
deriving DecidableEq

/-- `read_ + size <= size_` -/
def MemoryReader.readTest (size_ read_ size : UInt64) : Bool := read_ + size ≤ size_

/-- `n` is the length of the buffer; no object in memory has `2 ^ 63` bytes -/
def DecodeEvent.Inside (n : ℕ) : DecodeEvent → Prop
  | .read offset size ok =>
    (ok = true → offset + size ≤ n) ∧
      (n < 2 ^ 63 → ok = MemoryReader.readTest (UInt64.ofNat n) (UInt64.ofNat offset) (UInt64.ofNat size))
  | .node => True
  | .test size startRead bytesRead => startRead ≤ bytesRead ∧ bytesRead - startRead ≤ size
  | .outOfFuel => False

/-! ## The log of a decode -/

def readLog (size : ℕ) (r : MemoryReader) : List DecodeEvent :=
  [.read r.bytesRead size (decide (size ≤ r.rest.length))]

namespace Pson

def varintLoopLog (width : ℕ) : ℕ → ℕ → MemoryReader → List DecodeEvent
  | 0, _, _ => [.outOfFuel]
  | rounds + 1, bitPos, r =>
    readLog 1 r ++
      match r.readByte with
      | none => []
      | some (byte, r) =>
        if width ≤ bitPos then [] else if 0x80 ≤ byte then varintLoopLog width rounds (bitPos + 7) r else []

def varintLog (width : ℕ) (r : MemoryReader) : List DecodeEvent := varintLoopLog width (width + 1) 0 r

def tagLog (r : MemoryReader) : List DecodeEvent :=
  readLog 1 r ++
    match r.readByte with
    | none => []
    | some (byte, r) => if (byte &&& 0x1f).toNat = 0x1f then varintLog 64 r else []

def sizedLog (size : ℕ) (r : MemoryReader) : List DecodeEvent :=
  if Json.UINT32_MAX < size then [] else readLog size r

section

-- `decode` of the nested values, and its log
variable (decode : MemoryReader → Json → Decoded Json) (log : MemoryReader → List DecodeEvent)

def pairLog (object : List (Bytes × Json)) (r : MemoryReader) : List DecodeEvent :=
  tagLog r ++
    match pbDecodeTag r with
    | some ((.stringT, keySize), r) =>
      sizedLog keySize r ++
        match readSized keySize r with
        | none => []
        | some (key, r) => (if (SortedMap.find key object).isSome then [] else [.node]) ++ log r
    | _ => []

def objectLog : ℕ → List (Bytes × Json) → MemoryReader → List DecodeEvent
  | 0, _, _ => []
  | size + 1, object, r =>
    pairLog log object r ++
      match decodePair decode object r with
      | (false, _, _) => []
      | (true, object, r) => objectLog size object r

def arrayLog : ℕ → MemoryReader → List DecodeEvent
  | 0, _ => []
  | size + 1, r =>
    .node :: (log r ++
      match decode r .null with
      | (false, _, _) => []
      | (true, _, r) => arrayLog size r)

end

/-- the log of `decodeFuel`; the value decoded into does not matter -/
def valueLog : ℕ → MemoryReader → List DecodeEvent
  | 0, _ => [.outOfFuel]
  | fuel + 1, r =>
    tagLog r ++
      match pbDecodeTag r with
      | some ((.floatingT, 0), r) => readLog 4 r
      | some ((.floatingT, 1), r) => readLog 8 r
      | some ((.stringT, size), r) => sizedLog size r
      | some ((.bytesT, size), r) => sizedLog size r
      | some ((.mapT, size), r) => objectLog (decodeFuel fuel) (valueLog fuel) size [] r
      | some ((.arrayT, size), r) => arrayLog (decodeFuel fuel) (valueLog fuel) size r
      | _ => []

end Pson

namespace Codec

/-- `message[field]` -/
def entryLog (message : IotmpMessage) (field : UInt8) : List DecodeEvent :=
  if message.hasField field then [] else [.node]

def loopLog (size startRead : ℕ) : ℕ → IotmpMessage → MemoryReader → List DecodeEvent
  | 0, _, _ => [.outOfFuel]
  | fuel + 1, message, r =>
    .test size startRead r.bytesRead ::
      if size = r.bytesRead - startRead then []
      else
        Pson.varintLog 32 r ++
          match decodeField r with
          | some ((.varint, fieldNumber), r) =>
            Pson.varintLog 32 r ++
              match pbDecodeVarint r with
              | none => []
              | some (value, r) =>
                entryLog message (UInt8.ofNat fieldNumber) ++
                  loopLog size startRead fuel
                    (message.setField (UInt8.ofNat fieldNumber) (.numberUnsigned (UInt64.ofNat value))) r
          | some ((.psonV2, fieldNumber), r) =>
            entryLog message (UInt8.ofNat fieldNumber) ++ Pson.valueLog (r.rest.length + 1) r ++
              match Pson.decode r (message.get (UInt8.ofNat fieldNumber)) with
              | (false, _, _) => []
              | (true, value, r) => loopLog size startRead fuel (message.setField (UInt8.ofNat fieldNumber) value) r
          | _ => []

/-- the log of `decode` -/
def decodeLog (message : IotmpMessage) (size : ℕ) (r : MemoryReader) : List DecodeEvent :=
  loopLog size r.bytesRead (r.rest.length + 1) message r

end Codec

/-! ## Accounts -/

namespace MemoryReader

/-- `size_` -/
def size (r : MemoryReader) : ℕ := r.bytesRead + r.rest.length

theorem Reads.size_eq {r r' : MemoryReader} (h : r.Reads r') : r'.size = r.size := by
  obtain ⟨bs, hrest, hread⟩ := h
  rw [size, size, hrest, hread, List.length_append]
  omega

/-- the sum in `read` does not wrap below `2 ^ 63` bytes, whatever the decoder asks for -/
theorem readTest_eq (r : MemoryReader) (size : ℕ) (hsize : size ≤ Json.UINT32_MAX) (hr : r.size < 2 ^ 63) :
    decide (size ≤ r.rest.length) =
      readTest (UInt64.ofNat r.size) (UInt64.ofNat r.bytesRead) (UInt64.ofNat size) := by
  have hmax : Json.UINT32_MAX < 2 ^ 32 := by decide
  have hsum : r.size = r.bytesRead + r.rest.length := rfl
  rw [readTest, decide_eq_decide, UInt64.le_iff_toNat_le, UInt64.toNat_add, UInt64.toNat_ofNat', UInt64.toNat_ofNat',
    UInt64.toNat_ofNat']
  omega

end MemoryReader

open MemoryReader (Reads)

/-- from `r` to `r'` the events of `log` happen, and every node is paid with a byte -/
structure Accounts (r r' : MemoryReader) (log : List DecodeEvent) (spare owed : ℕ) : Prop where
  reads : r.Reads r'
  inside : ∀ e ∈ log, e.Inside r.size
  paid : log.count .node + spare + r'.rest.length ≤ r.rest.length + owed

namespace Accounts

variable {r r' r'' : MemoryReader} {log log' : List DecodeEvent} {spare owed spare' owed' : ℕ}

theorem trans (h : Accounts r r' log spare owed) (h' : Accounts r' r'' log' spare' owed') :
    Accounts r r'' (log ++ log') (spare + spare') (owed + owed') where
  reads := h.reads.trans h'.reads
  inside := List.forall_mem_append.2 ⟨h.inside, fun e he => h.reads.size_eq ▸ h'.inside e he⟩
  paid := by
    have h1 := h.paid
    have h2 := h'.paid
    rw [List.count_append]
    omega

theorem weaken (h : Accounts r r' log spare owed) (hle : spare' + owed ≤ spare + owed') :
    Accounts r r' log spare' owed' :=
  ⟨h.reads, h.inside, by have := h.paid; omega⟩

theorem nothing (r : MemoryReader) : Accounts r r [] 0 0 :=
  ⟨Reads.refl r, fun _ he => absurd he List.not_mem_nil, by simp⟩

/-- a node on credit -/
theorem node (r : MemoryReader) : Accounts r r [.node] 0 1 :=
  ⟨Reads.refl r, List.forall_mem_singleton.2 trivial, by simp; omega⟩

end Accounts

/-- the same wherever it ends: after a failure nobody asks for the reader -/
def Affords (r : MemoryReader) (log : List DecodeEvent) (owed : ℕ) : Prop := ∃ r', Accounts r r' log 0 owed

theorem Accounts.affords {r r' : MemoryReader} {log : List DecodeEvent} {spare owed owed' : ℕ}
    (h : Accounts r r' log spare owed) (hle : owed ≤ spare + owed') : Affords r log owed' :=
  ⟨r', h.weaken (by omega)⟩

theorem Accounts.then {r r' : MemoryReader} {log log' : List DecodeEvent} {spare owed owed' owed'' : ℕ}
    (h : Accounts r r' log spare owed) (h' : Affords r' log' owed') (hle : owed + owed' ≤ spare + owed'') :
    Affords r (log ++ log') owed'' := by
  obtain ⟨r'', h''⟩ := h'
  exact (h.trans h'').affords (by omega)

theorem Affords.nothing (r : MemoryReader) : Affords r [] 0 := ⟨r, Accounts.nothing r⟩

theorem readLog_inside (r : MemoryReader) (size : ℕ) (hsize : size ≤ Json.UINT32_MAX) :
    ∀ e ∈ readLog size r, e.Inside r.size := by
  refine List.forall_mem_singleton.2 ⟨fun hok => ?_, r.readTest_eq size hsize⟩
  have hle := of_decide_eq_true hok
  show r.bytesRead + size ≤ r.bytesRead + r.rest.length
  omega

theorem count_readLog (size : ℕ) (r : MemoryReader) : (readLog size r).count .node = 0 := rfl

/-- a read, into the reader it leaves behind -/
theorem readLog_accounts {r r' : MemoryReader} {size spare : ℕ} (hsize : size ≤ Json.UINT32_MAX) (hr : r.Reads r')
    (hle : spare + r'.rest.length ≤ r.rest.length) : Accounts r r' (readLog size r) spare 0 :=
  ⟨hr, readLog_inside r size hsize, by rw [count_readLog]; omega⟩

/-- a read that fails -/
theorem readLog_accounts_self (r : MemoryReader) {size : ℕ} (hsize : size ≤ Json.UINT32_MAX) :
    Accounts r r (readLog size r) 0 0 :=
  readLog_accounts hsize (Reads.refl r) (by omega)

namespace Pson

/-! ## Varints and tags -/

theorem one_le_max : 1 ≤ Json.UINT32_MAX := by decide

theorem readByte_accounts {r r' : MemoryReader} {b : UInt8} (h : r.readByte = some (b, r')) :
    Accounts r r' (readLog 1 r) 1 0 :=
  readLog_accounts one_le_max (MemoryReader.readByte_reads h) (by have := MemoryReader.readByte_length h; omega)

/-- a varint takes a byte at least; the rounds do not run out, since a code that goes on past `width` is refused -/
theorem varintLoop_accounts (width rounds bitPos varint : ℕ) (r : MemoryReader) (hbit : bitPos < width + 7)
    (hrounds : width + 7 ≤ bitPos + 7 * rounds) :
    (∀ v r', pbDecodeVarintLoop width rounds bitPos varint r = some (v, r') →
      Accounts r r' (varintLoopLog width rounds bitPos r) 1 0) ∧
    Affords r (varintLoopLog width rounds bitPos r) 0 := by
  induction rounds generalizing bitPos varint r with
  | zero => omega
  | succ rounds ih =>
    simp only [pbDecodeVarintLoop, varintLoopLog]
    rcases hb : r.readByte with _ | ⟨b, r1⟩
    · exact ⟨fun v r' h => absurd h (by simp), (readLog_accounts_self r one_le_max).then (.nothing r) le_rfl⟩
    · have h1 := readByte_accounts hb
      simp only
      split_ifs with hw hmore
      · exact ⟨fun v r' h => absurd h (by simp), h1.then (.nothing r1) (by omega)⟩
      · obtain ⟨ihsome, ihany⟩ := ih (bitPos + 7) (varint ||| ((b &&& 0x7F).toNat <<< bitPos) % 2 ^ width) r1
          (by omega) (by omega)
        exact ⟨fun v r' h => (h1.trans (ihsome v r' h)).weaken (by omega), h1.then ihany (by omega)⟩
      · refine ⟨fun v r' h => ?_, h1.then (.nothing r1) (by omega)⟩
        simp only [Option.some.injEq, Prod.mk.injEq] at h
        simpa [h.2] using h1

theorem varint_accounts (width : ℕ) (r : MemoryReader) (hwidth : 0 < width) :
    (∀ v r', pbDecodeVarint width r = some (v, r') → Accounts r r' (varintLog width r) 1 0) ∧
      Affords r (varintLog width r) 0 :=
  varintLoop_accounts width (width + 1) 0 0 r (by omega) (by omega)

theorem tag_accounts (r : MemoryReader) :
    (∀ t r', pbDecodeTag r = some (t, r') → Accounts r r' (tagLog r) 1 0) ∧ Affords r (tagLog r) 0 := by
  simp only [pbDecodeTag, tagLog]
  rcases hb : r.readByte with _ | ⟨b, r1⟩
  · exact ⟨fun t r' h => absurd h (by simp), (readLog_accounts_self r one_le_max).then (.nothing r) le_rfl⟩
  · have h1 := readByte_accounts hb
    obtain ⟨hsome, hany⟩ := varint_accounts 64 r1 (by norm_num)
    simp only
    split_ifs with hlong
    · refine ⟨fun t r' h => ?_, h1.then hany (by omega)⟩
      rcases hv : pbDecodeVarint64 r1 with _ | ⟨v, r2⟩
      · simp [hv] at h
      · simp only [hv, Option.some.injEq, Prod.mk.injEq] at h
        exact h.2 ▸ (h1.trans (hsome v r2 hv)).weaken (by omega)
    · refine ⟨fun t r' h => ?_, h1.then (.nothing r1) (by omega)⟩
      simp only [Option.some.injEq, Prod.mk.injEq] at h
      simpa [h.2] using h1

theorem sized_accounts (size : ℕ) (r : MemoryReader) :
    (∀ bs r', readSized size r = some (bs, r') → Accounts r r' (sizedLog size r) 0 0) ∧
      Affords r (sizedLog size r) 0 := by
  unfold readSized sizedLog
  split_ifs with hbig
  · exact ⟨fun bs r' h => absurd h (by simp), .nothing r⟩
  · refine ⟨fun bs r' h => ?_, (readLog_accounts_self r (not_lt.1 hbig)).affords le_rfl⟩
    have hreads := MemoryReader.read_reads h
    exact readLog_accounts (not_lt.1 hbig) hreads (by have := hreads.length_le; omega)

theorem raw_accounts (size : ℕ) (hsize : size ≤ Json.UINT32_MAX) (ofBytes : Bytes → Json) (r : MemoryReader)
    (value : Json) : Accounts r (decodeRaw size ofBytes r value).2.2 (readLog size r) 0 0 := by
  have hreads := decodeRaw_reads size ofBytes r value
  exact readLog_accounts hsize hreads (by have := hreads.length_le; omega)

/-! ## Pairs, objects and arrays over a nested decoder -/

section

variable {decode : MemoryReader → Json → Decoded Json} {log : MemoryReader → List DecodeEvent}

/-- what is asked of the nested decoder, on readers with at most `n` bytes left: a value that decodes has a byte to
spare, and any value pays for its nodes -/
def PaysUpTo (n : ℕ) (decode : MemoryReader → Json → Decoded Json) (log : MemoryReader → List DecodeEvent) : Prop :=
  ∀ r old, r.rest.length ≤ n →
    (∀ v r', decode r old = (true, v, r') → Accounts r r' (log r) 1 0) ∧ Affords r (log r) 0

/-- the tag of the key pays for the member -/
theorem pair_accounts {n : ℕ} (hd : PaysUpTo n decode log) (object : List (Bytes × Json)) (r : MemoryReader)
    (hr : r.rest.length ≤ n) :
    (∀ o r', decodePair decode object r = (true, o, r') → Accounts r r' (pairLog log object r) 0 0) ∧
      Affords r (pairLog log object r) 0 := by
  obtain ⟨htag, hany⟩ := tag_accounts r
  rcases ht : pbDecodeTag r with _ | ⟨⟨wireType, keySize⟩, r1⟩
  · simp only [decodePair, pairLog, ht, List.append_nil]
    exact ⟨fun o r' h => absurd h (by simp), hany⟩
  · cases wireType with
    | stringT =>
      have h1 := htag _ _ ht
      obtain ⟨hkey, hkeyAny⟩ := sized_accounts keySize r1
      rcases hk : readSized keySize r1 with _ | ⟨key, r2⟩
      · simp only [decodePair, pairLog, ht, hk, List.append_nil]
        exact ⟨fun o r' h => absurd h (by simp), h1.then hkeyAny (by omega)⟩
      · have h2 := h1.trans (hkey _ _ hk)
        have hmember : Accounts r2 r2 (if (SortedMap.find key object).isSome then [] else [.node]) 0 1 := by
          split_ifs
          · exact (Accounts.nothing r2).weaken (by omega)
          · exact .node r2
        have h3 := h2.trans hmember
        obtain ⟨hvalue, hvalueAny⟩ := hd r2 ((SortedMap.find key object).getD .null) (h2.reads.length_le.trans hr)
        simp only [decodePair, pairLog, ht, hk, ← List.append_assoc]
        refine ⟨fun o r' h => ?_, h3.then hvalueAny le_rfl⟩
        rcases hv : decode r2 ((SortedMap.find key object).getD .null) with ⟨ok, value, r3⟩
        simp only [hv, Prod.mk.injEq] at h
        obtain ⟨rfl, -, rfl⟩ := h
        exact (h3.trans (hvalue _ _ hv)).weaken (by omega)
    | _ =>
      simp only [decodePair, pairLog, ht, List.append_nil]
      exact ⟨fun o r' h => absurd h (by simp), hany⟩

theorem object_accounts {n : ℕ} (hd : PaysUpTo n decode log) (size : ℕ) (object : List (Bytes × Json))
    (r : MemoryReader) (hr : r.rest.length ≤ n) :
    (∀ o r', decodeObject decode size object r = (true, o, r') →
      Accounts r r' (objectLog decode log size object r) 0 0) ∧
      Affords r (objectLog decode log size object r) 0 := by
  induction size generalizing object r with
  | zero =>
    refine ⟨fun o r' h => ?_, .nothing r⟩
    obtain ⟨-, -, rfl⟩ : true = true ∧ object = o ∧ r = r' := by simpa [decodeObject] using h
    exact .nothing r
  | succ size ih =>
    obtain ⟨hpair, hany⟩ := pair_accounts hd object r hr
    rcases hp : decodePair decode object r with ⟨_ | _, object', r1⟩
    · simp only [decodeObject, objectLog, hp, List.append_nil]
      exact ⟨fun o r' h => absurd h (by simp), hany⟩
    · have h1 := hpair _ _ hp
      obtain ⟨ihsome, ihany⟩ := ih object' r1 (h1.reads.length_le.trans hr)
      simp only [decodeObject, objectLog, hp]
      exact ⟨fun o r' h => h1.trans (ihsome o r' h), h1.then ihany le_rfl⟩

/-- every element pays for itself, except the one that does not decode -/
theorem array_accounts {n : ℕ} (hd : PaysUpTo n decode log) (size : ℕ) (array : List Json) (r : MemoryReader)
    (hr : r.rest.length ≤ n) :
    (∀ a r', decodeArray decode size array r = (true, a, r') → Accounts r r' (arrayLog decode log size r) 0 0) ∧
      Affords r (arrayLog decode log size r) 1 := by
  induction size generalizing array r with
  | zero =>
    refine ⟨fun a r' h => ?_, (Accounts.nothing r).affords (by omega)⟩
    obtain ⟨-, -, rfl⟩ : true = true ∧ array = a ∧ r = r' := by simpa [decodeArray] using h
    exact .nothing r
  | succ size ih =>
    obtain ⟨hvalue, hany⟩ := hd r .null hr
    have hnode := Accounts.node r
    rcases hv : decode r .null with ⟨_ | _, value, r1⟩
    · simp only [decodeArray, arrayLog, hv, List.append_nil]
      exact ⟨fun a r' h => absurd h (by simp), hnode.then hany le_rfl⟩
    · have h1 := hnode.trans (hvalue _ _ hv)
      obtain ⟨ihsome, ihany⟩ := ih (array ++ [value]) r1 (h1.reads.length_le.trans hr)
      simp only [decodeArray, arrayLog, hv, ← List.cons_append]
      exact ⟨fun a r' h => (h1.trans (ihsome a r' h)).weaken (by omega), h1.then ihany (by omega)⟩

end

/-! ## Whole values -/

/-- **A value pays for its nodes.** If it decodes a byte is left over, for the node it goes into. -/
theorem value_accounts (fuel : ℕ) (r : MemoryReader) (old : Json) (hfuel : r.rest.length < fuel) :
    (∀ v r', decodeFuel fuel r old = (true, v, r') → Accounts r r' (valueLog fuel r) 1 0) ∧
      Affords r (valueLog fuel r) 0 := by
  induction fuel generalizing r old with
  | zero => exact absurd hfuel (Nat.not_lt_zero _)
  | succ fuel ih =>
    obtain ⟨htag, hany⟩ := tag_accounts r
    rcases ht : pbDecodeTag r with _ | ⟨⟨wireType, payload⟩, r1⟩
    · simp only [decodeFuel, valueLog, ht, List.append_nil]
      exact ⟨fun v r' h => absurd h (by simp), hany⟩
    · have h1 := htag _ _ ht
      have hlt := (pbDecodeTag_reads ht).2
      have hd : PaysUpTo r1.rest.length (decodeFuel fuel) (valueLog fuel) := fun r2 old hr2 => ih r2 old (by omega)
      -- a value that is all in its tag, or is refused there
      have hplain : ∀ d : Decoded Json, d.2.2 = r1 →
          (∀ v r', d = (true, v, r') → Accounts r r' (tagLog r ++ []) 1 0) ∧ Affords r (tagLog r ++ []) 0 := by
        rintro d rfl
        rw [List.append_nil]
        exact ⟨fun v r' h => by rw [h] at h1; exact h1, hany⟩
      -- a string or a binary behind it
      have hsized : ∀ d : Decoded Json, (∀ v r', d = (true, v, r') → ∃ bs, readSized payload r1 = some (bs, r')) →
          (∀ v r', d = (true, v, r') → Accounts r r' (tagLog r ++ sizedLog payload r1) 1 0) ∧
            Affords r (tagLog r ++ sizedLog payload r1) 0 := by
        intro d hsome
        obtain ⟨hbytes, hbytesAny⟩ := sized_accounts payload r1
        refine ⟨fun v r' h => ?_, h1.then hbytesAny (by omega)⟩
        obtain ⟨bs, hbs⟩ := hsome v r' h
        exact h1.trans (hbytes bs r' hbs)
      -- a number of four or eight bytes behind it
      have hraw : ∀ size ofBytes, size ≤ Json.UINT32_MAX →
          (∀ v r', decodeRaw size ofBytes r1 old = (true, v, r') → Accounts r r' (tagLog r ++ readLog size r1) 1 0) ∧
            Affords r (tagLog r ++ readLog size r1) 0 := by
        intro size ofBytes hsize
        have h2 := raw_accounts size hsize ofBytes r1 old
        exact ⟨fun v r' h => by rw [h] at h2; exact h1.trans h2, h1.then ⟨_, h2⟩ (by omega)⟩
      cases wireType with
      | unsignedT =>
        simp only [decodeFuel, valueLog, ht]
        exact hplain _ rfl
      | signedT =>
        simp only [decodeFuel, valueLog, ht]
        exact hplain _ rfl
      | floatingT =>
        rcases payload with _ | _ | payload <;> simp only [decodeFuel, valueLog, ht]
        · exact hraw 4 _ (by decide)
        · exact hraw 8 _ (by decide)
        · exact hplain _ rfl
      | discreteT =>
        rcases payload with _ | _ | _ | payload <;> simp only [decodeFuel, valueLog, ht] <;> exact hplain _ rfl
      | stringT =>
        simp only [decodeFuel, valueLog, ht]
        refine hsized _ fun v r' h => ?_
        rcases hs : readSized payload r1 with _ | ⟨bs, r2⟩
        · simp [hs] at h
        · simp only [hs, Prod.mk.injEq] at h
          exact ⟨bs, by rw [h.2.2]⟩
      | bytesT =>
        simp only [decodeFuel, valueLog, ht]
        refine hsized _ fun v r' h => ?_
        rcases hs : readSized payload r1 with _ | ⟨bs, r2⟩
        · simp [hs] at h
        · simp only [hs, Prod.mk.injEq] at h
          exact ⟨bs, by rw [h.2.2]⟩
      | mapT =>
        obtain ⟨hobject, hobjectAny⟩ := object_accounts hd payload [] r1 le_rfl
        simp only [decodeFuel, valueLog, ht]
        refine ⟨fun v r' h => ?_, h1.then hobjectAny (by omega)⟩
        rcases ho : decodeObject (decodeFuel fuel) payload [] r1 with ⟨ok, ms, r2⟩
        simp only [ho, Prod.mk.injEq] at h
        obtain ⟨rfl, -, rfl⟩ := h
        exact h1.trans (hobject ms r2 ho)
      | arrayT =>
        obtain ⟨harray, harrayAny⟩ := array_accounts hd payload [] r1 le_rfl
        simp only [decodeFuel, valueLog, ht]
        refine ⟨fun v r' h => ?_, h1.then harrayAny (by omega)⟩
        rcases ha : decodeArray (decodeFuel fuel) payload [] r1 with ⟨ok, es, r2⟩
        simp only [ha, Prod.mk.injEq] at h
        obtain ⟨rfl, -, rfl⟩ := h
        exact h1.trans (harray es r2 ha)

end Pson

namespace Codec

/-! ## The body -/

theorem test_inside {size startRead : ℕ} {r : MemoryReader} (hstart : startRead ≤ r.bytesRead)
    (hsize : r.size = startRead + size) : (DecodeEvent.test size startRead r.bytesRead).Inside r.size := by
  have hsum : r.size = r.bytesRead + r.rest.length := rfl
  exact ⟨hstart, by omega⟩

theorem test_accounts {size startRead : ℕ} {r : MemoryReader} (hstart : startRead ≤ r.bytesRead)
    (hsize : r.size = startRead + size) : Accounts r r [.test size startRead r.bytesRead] 0 0 :=
  ⟨Reads.refl r, List.forall_mem_singleton.2 (test_inside hstart hsize), by simp⟩

theorem entryLog_accounts (message : IotmpMessage) (field : UInt8) (r : MemoryReader) :
    Accounts r r (entryLog message field) 0 1 := by
  unfold entryLog
  split_ifs
  · exact (Accounts.nothing r).weaken (by omega)
  · exact .node r

/-- the tag of a field -/
theorem field_accounts (r : MemoryReader) :
    (∀ t r', decodeField r = some (t, r') → Accounts r r' (Pson.varintLog 32 r) 1 0) ∧
      Affords r (Pson.varintLog 32 r) 0 := by
  obtain ⟨hsome, hany⟩ := Pson.varint_accounts 32 r (by norm_num)
  refine ⟨fun t r' h => ?_, hany⟩
  unfold decodeField at h
  rcases hv : pbDecodeVarint r with _ | ⟨v, r1⟩
  · simp [hv] at h
  · simp only [hv, Option.some.injEq, Prod.mk.injEq] at h
    exact h.2 ▸ hsome v r1 hv

/-- **The body pays for its nodes**, and `decode` returns true only at the end of it. -/
theorem loop_accounts (size startRead fuel : ℕ) (message : IotmpMessage) (r : MemoryReader)
    (hfuel : r.rest.length < fuel) (hstart : startRead ≤ r.bytesRead) (hsize : r.size = startRead + size) :
    (∀ m r', decodeLoop size startRead fuel message r = (true, m, r') →
        r'.bytesRead = startRead + size ∧ r'.rest = []) ∧
      Affords r (loopLog size startRead fuel message r) 0 := by
  induction fuel generalizing message r with
  | zero => exact absurd hfuel (Nat.not_lt_zero _)
  | succ fuel ih =>
    have h0 := test_accounts hstart hsize
    have htest : ∀ {log : List DecodeEvent}, Affords r log 0 →
        Affords r (.test size startRead r.bytesRead :: log) 0 := fun h => h0.then h le_rfl
    have hsum : r.size = r.bytesRead + r.rest.length := rfl
    by_cases hend : size = r.bytesRead - startRead
    · simp only [decodeLoop, loopLog, if_pos hend]
      refine ⟨fun m r' h => ?_, htest (.nothing r)⟩
      obtain ⟨-, -, rfl⟩ : true = true ∧ message = m ∧ r = r' := by simpa using h
      exact ⟨by omega, List.length_eq_zero_iff.1 (by omega)⟩
    · simp only [decodeLoop, loopLog, if_neg hend]
      obtain ⟨hfield, hfieldAny⟩ := field_accounts r
      -- what the rest of the body does, after one more field
      have hnext : ∀ {log : List DecodeEvent} {spare owed : ℕ} (message' : IotmpMessage) (r' : MemoryReader),
          Accounts r r' log spare owed → r'.rest.length < r.rest.length →
            (∀ m r'', decodeLoop size startRead fuel message' r' = (true, m, r'') →
              r''.bytesRead = startRead + size ∧ r''.rest = []) ∧
              Affords r' (loopLog size startRead fuel message' r') 0 := by
        intro log spare owed message' r' h hlt
        obtain ⟨bs, -, hread⟩ := h.reads
        exact ih message' r' (by omega) (by omega) (h.reads.size_eq.trans hsize)
      rcases hf : decodeField r with _ | ⟨⟨wireType, fieldNumber⟩, r1⟩
      · simp only [List.append_nil]
        exact ⟨fun m r' h => absurd h (by simp), htest hfieldAny⟩
      · have h1 := hfield _ _ hf
        have hlt1 := (decodeField_lt hf).2
        cases wireType with
        | varint =>
          obtain ⟨hvalue, hvalueAny⟩ := Pson.varint_accounts 32 r1 (by norm_num)
          rcases hv : pbDecodeVarint r1 with _ | ⟨value, r2⟩
          · simp only [hv, List.append_nil]
            exact ⟨fun m r' h => absurd h (by simp), htest (h1.then hvalueAny (by omega))⟩
          · have h2 := h1.trans (hvalue _ _ hv)
            have h3 := h2.trans (entryLog_accounts message (UInt8.ofNat fieldNumber) r2)
            have hlt2 := Pson.pbDecodeVarint_lt hv
            obtain ⟨hdone, hrest⟩ := hnext
              (message.setField (UInt8.ofNat fieldNumber) (.numberUnsigned (UInt64.ofNat value))) r2 h2 (by omega)
            simp only [hv]
            exact ⟨hdone, htest (by simpa only [List.append_assoc] using h3.then hrest (by omega))⟩
        | psonV2 =>
          obtain ⟨hvalue, hvalueAny⟩ := Pson.value_accounts (r1.rest.length + 1) r1
            (message.get (UInt8.ofNat fieldNumber)) (Nat.lt_succ_self _)
          have h2 := h1.trans (entryLog_accounts message (UInt8.ofNat fieldNumber) r1)
          rcases hd : Pson.decode r1 (message.get (UInt8.ofNat fieldNumber)) with ⟨_ | _, value, r2⟩
          · simp only [hd, List.append_nil]
            exact ⟨fun m r' h => absurd h (by simp),
              htest (by simpa only [List.append_assoc] using h2.then hvalueAny (by omega))⟩
          · have h3 := h2.trans (hvalue _ _ hd)
            have hle := h3.reads.length_le
            have hlt2 : r2.rest.length < r.rest.length := by
              have := (hvalue _ _ hd).reads.length_le
              omega
            obtain ⟨hdone, hrest⟩ := hnext (message.setField (UInt8.ofNat fieldNumber) value) r2 h3 hlt2
            simp only [hd, if_true]
            exact ⟨hdone, htest (by simpa only [List.append_assoc] using h3.then hrest (by omega))⟩
        | psonV1 =>
          simp only [List.append_nil]
          exact ⟨fun m r' h => absurd h (by simp), htest hfieldAny⟩
        | unknown code =>
          simp only [List.append_nil]
          exact ⟨fun m r' h => absurd h (by simp), htest hfieldAny⟩

/-- **Decoding is total, bounded and exact.** On any body, into any message: no read that succeeds leaves the body, the
difference in the loop does not wrap and no recursion runs out; true means that all of the body was read; and there is
at most one node for every byte. -/
theorem decode_bounded (message : IotmpMessage) (bs : Bytes) :
    (∀ e ∈ decodeLog message bs.length (MemoryReader.ofBuffer bs), e.Inside bs.length) ∧
      (∀ m r, decode message bs.length (MemoryReader.ofBuffer bs) = (true, m, r) → r.bytesRead = bs.length) ∧
      (decodeLog message bs.length (MemoryReader.ofBuffer bs)).count .node ≤ bs.length := by
  have hsize : (MemoryReader.ofBuffer bs).size = 0 + bs.length := rfl
  obtain ⟨hdone, r', hlog⟩ := loop_accounts bs.length 0 (bs.length + 1) message (MemoryReader.ofBuffer bs)
    (Nat.lt_succ_self _) (Nat.zero_le _) hsize
  refine ⟨fun e he => ?_, fun m r h => ?_, ?_⟩
  · have := hlog.inside e he
    rwa [hsize, Nat.zero_add] at this
  · rw [(hdone m r h).1, Nat.zero_add]
  · have hpaid := hlog.paid
    have hrest : (MemoryReader.ofBuffer bs).rest.length = bs.length := rfl
    rw [decodeLog]
    show (loopLog bs.length 0 (bs.length + 1) message (MemoryReader.ofBuffer bs)).count .node ≤ bs.length
    omega

/-- an array of `2 ^ 64 - 1` elements in twelve bytes: the payload and one element -/
example :
    (decodeLog { messageType := .ok } 12
      (MemoryReader.ofBuffer (0x1A :: 0xFF :: List.replicate 9 0xFF ++ [0x01]))).count .node = 2 := by
  decide

end Codec

end Iotmp
