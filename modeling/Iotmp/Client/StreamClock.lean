/-
The clock of a periodic stream (`client.hpp`: `stream_config::last_streaming`, `stream_interval_loop`).

The reading of a check is a signed 64-bit count of milliseconds, `last_streaming` an `unsigned long` of 64 or 32 bits.
With 64 bits the difference is taken modulo `2 ^ 64`. With 32 bits the reading is stored modulo `2 ^ 32`, and the
difference is taken of signed 64-bit numbers.

- `StreamClock`: `last_streaming`, and beside it the reading of the last transmission. `Check`: a reading, and the
  interval at it, which another START_STREAM of the same id may have set.
- `Kept`: the check transmits exactly if the interval has passed since the last transmission.
- `Exact`: the stored reading does not mislead the check. `kept_iff`: a check is kept exactly if it does not.
- `interval_kept_iff`: so for a whole sequence of checks. `kept_of_long`: with 64 bits every sequence is kept.
- `due_iff`, `tick_clock`: the 64-bit clock is that of the loop's rounds.
Witness: `interval_kept_later`. Counterexample: `every_check_transmits`.
-/
import Mathlib.Tactic
import Iotmp.Lib.Run
import Iotmp.Client.IntervalLoop

namespace Iotmp

/-- the width of `unsigned long` -/
inductive LongWidth where
  | w32
  | w64
deriving DecidableEq

def LongWidth.bits : LongWidth → ℕ
  | w32 => 32
  | w64 => 64

structure StreamClock (w : LongWidth) where
  /-- `last_streaming` -/
  last : BitVec w.bits := 0
  /-- the reading at the last transmission, which the code does not keep -/
  previous : Option Int64 := none

structure Check where
  now : Int64
  interval : UInt32

namespace StreamClock

variable {w : LongWidth}

/-! ## A check -/

/-- `config.last_streaming = now` -/
def store (w : LongWidth) (now : Int64) : BitVec w.bits := now.toBitVec.setWidth w.bits

/-- `elapsed >= config.interval`: of `unsigned long` where it has 64 bits, of `int64_t` where it has 32 -/
def reached : (w : LongWidth) → Int64 → BitVec w.bits → UInt32 → Bool
  | .w32, now, last, interval =>
    decide (Int64.ofBitVec (interval.toBitVec.setWidth 64) ≤ now - Int64.ofBitVec (BitVec.setWidth 64 last))
  | .w64, now, last, interval => decide (interval.toUInt64 ≤ now.toUInt64 - UInt64.ofBitVec last)

def transmits (s : StreamClock w) (c : Check) : Bool :=
  decide (0 < c.interval) && reached w c.now s.last c.interval

def step (s : StreamClock w) (c : Check) : StreamClock w :=
  if s.transmits c then { last := store w c.now, previous := some c.now } else s

/-! ## What it should do -/

/-- the check transmits exactly if the interval has passed since the last transmission -/
def Kept (s : StreamClock w) (c : Check) : Prop :=
  0 < c.interval → ∀ previous, s.previous = some previous →
    (s.transmits c = true ↔ (c.interval.toNat : ℤ) ≤ c.now.toInt - previous.toInt)

/-- With 32 bits the last transmission was read below `2 ^ 32`; or later, and the interval has passed; or before the
epoch, and it has not passed, or passed by the turns of `2 ^ 32` that are lost. -/
def Exact (s : StreamClock w) (c : Check) : Prop :=
  0 < c.interval → ∀ previous, s.previous = some previous → w = .w32 →
    (0 ≤ previous.toInt ∧ previous.toInt < 2 ^ 32) ∨
    (2 ^ 32 ≤ previous.toInt ∧ c.interval.toNat ≤ c.now.toInt - previous.toInt) ∨
    (previous.toInt < 0 ∧ (c.now.toInt - previous.toInt < c.interval.toNat ∨
      c.interval.toNat - 2 ^ 32 * (previous.toInt / 2 ^ 32) ≤ c.now.toInt - previous.toInt))

/-- what is stored is the reading of the last transmission -/
def Stored (s : StreamClock w) : Prop := ∀ previous, s.previous = some previous → s.last = store w previous

theorem step_stored {s : StreamClock w} (c : Check) (h : s.Stored) : (s.step c).Stored := by
  rw [step]
  split_ifs
  · intro previous hp
    obtain rfl := Option.some.inj hp
    rfl
  · exact h

theorem step_previous {s : StreamClock w} {c : Check} {previous : Int64} (h : (s.step c).previous = some previous) :
    s.previous = some previous ∨ previous = c.now := by
  rw [step] at h
  split_ifs at h
  · exact .inr (Option.some.inj h).symm
  · exact .inl h

/-! ## One check -/

/-- the bits of a signed number -/
theorem toNat_bits (n : Int64) : (n.toBitVec.toNat : ℤ) = n.toInt % 2 ^ 64 := by
  have hcond := BitVec.toInt_eq_toNat_cond n.toBitVec
  rw [Int64.toInt_toBitVec] at hcond
  have hlt := n.toBitVec.isLt
  split_ifs at hcond
  · omega
  · omega

/-- fewer than 64 bits, widened to a signed number -/
theorem toInt_widened {bits : ℕ} (x : BitVec bits) (h : bits < 64) :
    (Int64.ofBitVec (x.setWidth 64)).toInt = x.toNat := by
  have hlt : x.toNat < 2 ^ 63 := lt_of_lt_of_le x.isLt (Nat.pow_le_pow_right two_pos (Nat.le_of_lt_succ h))
  rw [Int64.toInt_ofBitVec, BitVec.toInt_eq_toNat_cond, BitVec.toNat_setWidth_of_le h.le, if_pos (by omega)]

/-- with 64 bits the difference is that of the readings -/
theorem reached_w64 {now previous : Int64} (interval : UInt32) (h : previous.toInt ≤ now.toInt) :
    reached .w64 now (store .w64 previous) interval = true ↔ (interval.toNat : ℤ) ≤ now.toInt - previous.toInt := by
  have hnow := toNat_bits now
  have hprevious := toNat_bits previous
  have hlow := previous.le_toInt
  have hhigh := now.toInt_lt
  have hlt := now.toBitVec.isLt
  have hlt' := previous.toBitVec.isLt
  have hstore : UInt64.ofBitVec (store .w64 previous) = previous.toUInt64 :=
    congrArg UInt64.ofBitVec (BitVec.setWidth_eq previous.toBitVec)
  have hdifference : ((now.toUInt64 - previous.toUInt64).toNat : ℤ) = now.toInt - previous.toInt := by
    change (((now.toBitVec - previous.toBitVec).toNat : ℕ) : ℤ) = _
    rw [BitVec.toNat_sub]
    omega
  rw [reached, decide_eq_true_iff, hstore, UInt64.le_iff_toNat_le, UInt32.toNat_toUInt64, ← hdifference, Nat.cast_le]

/-- with 32 bits it is that of the reading and a remainder, and does not overflow -/
theorem reached_w32 {now previous : Int64} (interval : UInt32) (h : previous.toInt ≤ now.toInt) :
    reached .w32 now (store .w32 previous) interval = true ↔
      (interval.toNat : ℤ) ≤ now.toInt - previous.toInt % 2 ^ 32 := by
  have hprevious := toNat_bits previous
  have hlow := previous.le_toInt
  have hhigh := now.toInt_lt
  have hstore : ((store .w32 previous).toNat : ℤ) = previous.toInt % 2 ^ 32 := by
    have hbits : (store .w32 previous).toNat = previous.toBitVec.toNat % 2 ^ 32 :=
      BitVec.toNat_setWidth 32 previous.toBitVec
    omega
  have hdifference : (now - Int64.ofBitVec (BitVec.setWidth 64 (store .w32 previous))).toInt =
      now.toInt - previous.toInt % 2 ^ 32 := by
    rw [Int64.toInt_sub, toInt_widened _ (by decide), hstore]
    exact Int.bmod_eq_of_le (by omega) (by omega)
  rw [reached, decide_eq_true_iff, Int64.le_iff_toInt_le, toInt_widened _ (by decide), hdifference]
  rfl

/-- **A check is kept exactly if what is stored does not mislead it.** -/
theorem kept_iff {s : StreamClock w} {c : Check} (hs : s.Stored)
    (hnow : ∀ previous, s.previous = some previous → previous.toInt ≤ c.now.toInt) : s.Kept c ↔ s.Exact c := by
  refine forall_congr' fun hinterval => forall_congr' fun previous => forall_congr' fun hprevious => ?_
  have hle := hnow previous hprevious
  have hlt := c.interval.toNat_lt
  have htransmits : s.transmits c = reached w c.now (store w previous) c.interval := by
    rw [transmits, decide_eq_true hinterval, Bool.true_and, hs previous hprevious]
  rw [htransmits]
  cases w with
  | w64 =>
    rw [reached_w64 c.interval hle]
    simp
  | w32 =>
    rw [reached_w32 c.interval hle]
    simp only [true_implies]
    omega

/-! ## Sequences of checks -/

/-- **A sequence of checks keeps the interval exactly if no stored reading misleads one.** -/
theorem kept_steps_iff (s : StreamClock w) (checks : List Check) (hs : s.Stored)
    (hprevious : ∀ previous, s.previous = some previous → ∀ c ∈ checks, previous.toInt ≤ c.now.toInt)
    (hclock : (checks.map Check.now).Pairwise (· ≤ ·)) :
    Run.Steps step Kept s checks ↔ Run.Steps step Exact s checks := by
  induction checks generalizing s with
  | nil => exact Iff.rfl
  | cons c checks ih =>
    obtain ⟨hhead, hrest⟩ := List.pairwise_cons.1 hclock
    have hnow : ∀ previous, s.previous = some previous → previous.toInt ≤ c.now.toInt :=
      fun previous hp => hprevious previous hp c List.mem_cons_self
    refine and_congr (kept_iff hs hnow) (ih (s.step c) (step_stored c hs) ?_ hrest)
    intro previous hp c' hc'
    have hlater : c.now.toInt ≤ c'.now.toInt := Int64.le_iff_toInt_le.1 (hhead c'.now (List.mem_map_of_mem hc'))
    rcases step_previous hp with hold | rfl
    · exact hprevious previous hold c' (List.mem_cons_of_mem c hc')
    · exact hlater

/-- **When a periodic stream keeps its interval**, from its start on, whatever readings the clock gives in order. -/
theorem interval_kept_iff (w : LongWidth) (checks : List Check) (hclock : (checks.map Check.now).Pairwise (· ≤ ·)) :
    Run.Steps step Kept ({} : StreamClock w) checks ↔ Run.Steps step Exact ({} : StreamClock w) checks :=
  kept_steps_iff {} checks (fun _ h => absurd h (by simp)) (fun _ h => absurd h (by simp)) hclock

/-- with 64 bits no check is misled -/
theorem kept_of_long (checks : List Check) (hclock : (checks.map Check.now).Pairwise (· ≤ ·)) :
    Run.Steps step Kept ({} : StreamClock .w64) checks := by
  refine (kept_steps_iff {} checks (fun _ h => absurd h (by simp)) (fun _ h => absurd h (by simp)) hclock).2 ?_
  rw [Run.Steps.iff_splits]
  intro _ _ _ _ _ _ _ hw
  exact absurd hw (by decide)

/-- a stream every second, in January 1970 -/
theorem interval_kept_later :
    Run.Steps step Kept ({} : StreamClock .w32) [⟨5000, 1000⟩, ⟨5500, 1000⟩] := by
  have hexact : Run.Steps step Exact ({} : StreamClock .w32) [⟨5000, 1000⟩, ⟨5500, 1000⟩] := by
    refine ⟨fun _ previous hprevious => absurd hprevious (by simp), fun _ previous hprevious _ => ?_, trivial⟩
    have hsent : some 5000 = some previous := hprevious
    obtain rfl := Option.some.inj hsent
    exact .inl (by decide)
  exact (interval_kept_iff .w32 [⟨5000, 1000⟩, ⟨5500, 1000⟩] (by decide)).2 hexact

/-- A minute is the interval, a second passes: with 32 bits both checks transmit. -/
theorem every_check_transmits :
    ({} : StreamClock .w32).transmits ⟨1760000000000, 60000⟩ = true ∧
    (({} : StreamClock .w32).step ⟨1760000000000, 60000⟩).transmits ⟨1760000001000, 60000⟩ = true ∧
    ¬ Run.Steps step Kept ({} : StreamClock .w32) [⟨1760000000000, 60000⟩, ⟨1760000001000, 60000⟩] := by
  have hsecond : (({} : StreamClock .w32).step ⟨1760000000000, 60000⟩).transmits ⟨1760000001000, 60000⟩ = true := by
    decide
  refine ⟨by decide, hsecond, fun h => ?_⟩
  have hlate := (h.2.1 (by decide) 1760000000000 (by decide)).1 hsecond
  exact absurd hlate (by decide)

end StreamClock

/-! ## The loop -/

namespace IntervalLoop

open StreamClock (transmits)

/-- the clock of a stream in the 64-bit loop -/
def clock (s : IntervalLoop) (streamId : UInt16) (previous : Option Int64) : StreamClock .w64 :=
  ⟨(s.last streamId).toBitVec, previous⟩

def Tick.check (t : Tick) (config : StreamConfig) : Check := ⟨t.now.toInt64, config.interval⟩

theorem due_iff (s : IntervalLoop) (t : Tick) (streamId : UInt16) (config : StreamConfig) (previous : Option Int64) :
    s.Due t streamId config ↔ (s.clock streamId previous).transmits (Tick.check t config) = true := by
  rw [transmits, Bool.and_eq_true, decide_eq_true_iff, StreamClock.reached, decide_eq_true_iff]
  exact Iff.rfl

/-- a round leaves the readings of other streams as they are -/
theorem scan_last_other (t : Tick) (entries : List (UInt16 × StreamConfig)) (s : IntervalLoop) {streamId : UInt16}
    (hid : streamId ∉ entries.map Prod.fst) : (scan t entries s).1.last streamId = s.last streamId := by
  induction entries generalizing s with
  | nil => rfl
  | cons entry rest ih =>
    obtain ⟨other, config⟩ := entry
    obtain ⟨hne, hrest⟩ := not_or.1 (List.mem_cons.not.1 hid)
    have hupdate : Function.update s.last other t.now streamId = s.last streamId := Function.update_of_ne hne _ _
    rcases hr : config.resource with _ | ref
    · simp only [scan, hr]
      exact ih s hrest
    · simp only [scan, hr]
      split_ifs
      · rcases s.client.streamResource (t.resourceAt ref) other with ⟨c, _ | _⟩
        · exact hupdate
        · exact (ih _ hrest).trans hupdate
      · exact ih s hrest

/-- **A round without exceptions stores the reading for the streams that are due.** -/
theorem scan_last (t : Tick) (entries : List (UInt16 × StreamConfig)) (s : IntervalLoop)
    (hnodup : (entries.map Prod.fst).Nodup) (hquiet : ∀ entry ∈ entries, (s.outcome t entry).thrown = false)
    {streamId : UInt16} {config : StreamConfig} (hmem : (streamId, config) ∈ entries)
    (hresource : config.resource.isSome = true) :
    (scan t entries s).1.last streamId = if s.Due t streamId config then t.now else s.last streamId := by
  induction entries generalizing s with
  | nil => exact absurd hmem (by simp)
  | cons entry rest ih =>
    obtain ⟨other, config'⟩ := entry
    obtain ⟨hid, hrest⟩ := List.nodup_cons.1 hnodup
    obtain ⟨hhead, htail⟩ := List.forall_mem_cons.1 hquiet
    rcases List.mem_cons.1 hmem with heq | hlater
    · -- the stream's own entry: the rest of the round does not touch its reading
      obtain ⟨rfl, rfl⟩ := Prod.mk.inj heq
      obtain ⟨ref, hr⟩ := Option.isSome_iff_exists.1 hresource
      simp only [scan, hr]
      split_ifs with hdue
      · simp only [outcome, hr, if_pos hdue] at hhead
        rw [streamResource_eq]
        rcases hstreamed : (t.resourceAt ref).streamed streamId with message | _
        · exact (scan_last_other t rest _ hid).trans (Function.update_self _ _ _)
        · exact absurd hhead (by simp [hstreamed])
      · exact scan_last_other t rest s hid
    · have hne : streamId ≠ other := by
        rintro rfl
        exact hid (List.mem_map.2 ⟨_, hlater, rfl⟩)
      rcases hr : config'.resource with _ | ref
      · simp only [scan, hr]
        exact ih s hrest htail hlater
      · by_cases hdue : s.Due t other config'
        · simp only [outcome, hr, if_pos hdue] at hhead
          simp only [scan, hr, if_pos hdue, streamResource_eq]
          rcases hstreamed : (t.resourceAt ref).streamed other with message | _
          · have hlast := last_update s.last t.now hid
            have hsame : Function.update s.last other t.now streamId = s.last streamId := hlast _ hlater
            rw [ih { s with
              last := Function.update s.last other t.now
              client := { s.client with sent := s.client.sent ++ message.toList } } hrest
              (fun entry hentry => by rw [outcome_congr t (hlast entry hentry), htail entry hentry]) hlater]
            exact if_congr (due_congr t config hsame) rfl hsame
          · exact absurd hhead (by simp [hstreamed])
        · simp only [scan, hr, if_neg hdue]
          exact ih s hrest htail hlater

/-- **A tick without exceptions is a check of the stream's clock.** -/
theorem tick_clock {s : IntervalLoop} (t : Tick) (hconnected : s.client.connected = true) (hlooping : s.looping = true)
    (hquiet : ¬ s.Fails t) {streamId : UInt16} {config : StreamConfig}
    (hmem : (streamId, config) ∈ s.client.streams.entries) (hresource : config.resource.isSome = true)
    (previous : Option Int64) :
    (s.tick t).clock streamId (if s.Due t streamId config then some t.now.toInt64 else previous) =
      (s.clock streamId previous).step (Tick.check t config) := by
  have hlast := scan_last t s.client.streams.entries s (SortedMap.nodup_of_ordered s.client.streams.ordered)
    (fun entry hentry => by simpa using fun hthrown => hquiet ⟨entry, hentry, hthrown⟩) hmem hresource
  have htick : (s.tick t).last streamId = (scan t s.client.streams.entries s).1.last streamId := by
    rw [tick, if_neg (by simp [hlooping]), if_neg (by simp [hconnected])]
    rcases scan t s.client.streams.entries s with ⟨s', _ | _⟩
    · rfl
    · rfl
  have hdue := due_iff s t streamId config previous
  rw [clock, htick, hlast, StreamClock.step]
  by_cases h : s.Due t streamId config
  · rw [if_pos h, if_pos h, if_pos (hdue.1 h)]
    exact congrArg (StreamClock.mk · _) (BitVec.setWidth_eq _).symm
  · rw [if_neg h, if_neg h, if_neg fun htransmits => h (hdue.2 htransmits)]
    rfl

end IntervalLoop

end Iotmp
