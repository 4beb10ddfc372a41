/-
The write queue of a connection that stays up.

- `Idle`: connected, nothing queued, no `process_write_queue` around. Writes of `write_message` may be pending.
- `sends`: the messages of the run's calls of `send_message` that the logger lets through.
- `Shape`: where the one `process_write_queue` stands, and what is written, in flight and queued then.
- `lossless`: from an idle state on, over every run that keeps the connection up, there is at most one
  `process_write_queue`, the flag says whether there is one, what the run sent is written, in flight or queued, in order
  and once each, and something queued is never without a writer. Where nothing but `send_message` writes, the socket has
  carried the written frames and what is written of the frame in flight.
- Witness `lossless_two`: two messages, the second while the first is in flight.
-/
import Mathlib.Tactic
import Iotmp.Client.WritePath

namespace Iotmp.WritePath

/-! ## Writers -/

/-- coroutine `i` is a `process_write_queue`, spawned or waiting for a write -/
def IsWriter (s : WritePath) (i : ℕ) : Prop :=
  s.coroutines i = some .processWriteQueue ∨ ∃ w, s.coroutines i = some (.write w) ∧ w.queued = true

/-- the frames that `process_write_queue` has in flight -/
def InFlight (s : WritePath) : List Bytes → Prop
  | [] => ∀ i w, s.pending i = some w → w.queued = false
  | [frame] => ∃ i w, s.pending i = some w ∧ w.queued = true ∧ w.frame = frame
  | _ => False

/-- the messages that the calls of `send_message` of a run queue -/
def sends (logging : Bool) (events : List WriteEvent) : List Outgoing :=
  events.filterMap fun
    | .sendMessage m => if m.message.Logs logging then some m else none
    | _ => none

/-- **The write queue is a lossless FIFO with a writer awake**, for the messages sent. -/
structure Lossless (s : WritePath) (messages : List Outgoing) : Prop where
  one : ∀ i j, s.IsWriter i → s.IsWriter j → i = j
  flag : s.writeInProgress = true ↔ ∃ i, s.IsWriter i
  fifo : ∃ frames, s.InFlight frames ∧ s.completed ++ frames ++ s.writeQueue = messages.map Outgoing.encoded
  awake : s.writeQueue ≠ [] → ∃ i, s.IsWriter i

/-- what is on the wire of the frame in flight -/
def Part (s : WritePath) (part : Bytes) : Prop :=
  ((∀ i, s.pending i = none) ∧ part = []) ∨ ∃ i w, s.pending i = some w ∧ part = w.frame.take w.written

/-- the socket has carried, after `before`, the frames written and a part of the one in flight -/
def Carried (s : WritePath) (before : Bytes) : Prop :=
  ∃ part, s.Part part ∧ s.wire s.socket = before ++ s.completed.flatten ++ part

/-- no `write_message` is pending, nor in the run -/
def Alone (s : WritePath) (events : List WriteEvent) : Prop :=
  (∀ i, s.pending i = none) ∧ ∀ m, WriteEvent.writeMessage m ∉ events

structure Idle (s : WritePath) : Prop where
  connected : s.connected = true
  socket : s.socket ≠ 0
  queue : s.writeQueue = []
  flag : s.writeInProgress = false
  quiet : ∀ i, ¬ s.IsWriter i
  fresh : ∀ i, s.spawned ≤ i → s.coroutines i = none
  sent : s.sent = []
  completed : s.completed = []

/-- the connection is not lost, and no write on it fails -/
def StaysUp (_ : WritePath) : WriteEvent → Prop
  | .fail _ => False
  | .lost => False
  | .connect => False
  | _ => True

/-! ## Where the writer stands -/

inductive Position where
  | idle
  | begins (i : ℕ)
  | waits (i : ℕ) (w : PendingWrite)

/-- the coroutine of a position, if it is `i` -/
def Position.coroutine : Position → ℕ → Option Coroutine
  | idle, _ => none
  | begins j, i => if i = j then some .processWriteQueue else none
  | waits j w, i => if i = j then some (.write w) else none

/-- what a position has in flight -/
def Position.frames : Position → List Bytes
  | waits _ w => [w.frame]
  | _ => []

/-- the only writer is where `p` says, and nothing queued waits without it -/
structure Shape (s : WritePath) (p : Position) : Prop where
  connected : s.connected = true
  socket : s.socket ≠ 0
  fresh : ∀ i, s.spawned ≤ i → s.coroutines i = none
  flag : s.writeInProgress = true ↔ p ≠ .idle
  writer : ∀ i c, p.coroutine i = some c → s.coroutines i = some c
  others : ∀ i, p.coroutine i = none → ¬ s.IsWriter i
  queued : ∀ i w, p = .waits i w → w.queued = true
  empty : p = .idle → s.writeQueue = []
  fifo : s.completed ++ p.frames ++ s.writeQueue = s.sent.map Outgoing.encoded

theorem Idle.shape {s : WritePath} (h : s.Idle) : s.Shape .idle where
  connected := h.connected
  socket := h.socket
  fresh := h.fresh
  flag := by simp [h.flag]
  writer := by simp [Position.coroutine]
  others i _ := h.quiet i
  queued := by simp
  empty _ := h.queue
  fifo := by simp [Position.frames, h.queue, h.sent, h.completed]

theorem Shape.isWriter_iff {s : WritePath} {p : Position} (h : s.Shape p) (i : ℕ) :
    s.IsWriter i ↔ p.coroutine i ≠ none := by
  constructor
  · intro hw hnone
    exact h.others i hnone hw
  · intro hsome
    obtain ⟨c, hc⟩ := Option.ne_none_iff_exists'.1 hsome
    have hi := h.writer i c hc
    cases p with
    | idle => exact absurd hc (by simp [Position.coroutine])
    | begins j =>
      simp only [Position.coroutine] at hc
      split_ifs at hc
      obtain rfl := Option.some.inj hc
      exact .inl hi
    | waits j w =>
      simp only [Position.coroutine] at hc
      split_ifs at hc
      obtain rfl := Option.some.inj hc
      exact .inr ⟨w, hi, h.queued j w rfl⟩

theorem Shape.isLossless {s : WritePath} {p : Position} (h : s.Shape p) : s.Lossless s.sent := by
  have hwriter := h.isWriter_iff
  have hsome : (∃ i, s.IsWriter i) ↔ p ≠ .idle := by
    constructor
    · rintro ⟨i, hi⟩ rfl
      exact (hwriter i).1 hi rfl
    · intro hp
      cases p with
      | idle => exact absurd rfl hp
      | begins j => exact ⟨j, (hwriter j).2 (by simp [Position.coroutine])⟩
      | waits j w => exact ⟨j, (hwriter j).2 (by simp [Position.coroutine])⟩
  refine ⟨?_, h.flag.trans hsome.symm, ⟨p.frames, ?_, h.fifo⟩, ?_⟩
  · intro i j hi hj
    have hi' := (hwriter i).1 hi
    have hj' := (hwriter j).1 hj
    cases p with
    | idle => exact absurd rfl hi'
    | begins k =>
      simp only [Position.coroutine, ne_eq, ite_eq_right_iff, reduceCtorEq, imp_false, not_not] at hi' hj'
      rw [hi', hj']
    | waits k w =>
      simp only [Position.coroutine, ne_eq, ite_eq_right_iff, reduceCtorEq, imp_false, not_not] at hi' hj'
      rw [hi', hj']
  · have hquiet : (∀ i w, p ≠ .waits i w) → ∀ i w, s.pending i = some w → w.queued = false := by
      intro hp i w hi
      by_contra hq
      have hc := coroutine_of_pending hi
      have hw := (hwriter i).1 (.inr ⟨w, hc, by simpa using hq⟩)
      obtain ⟨c, hpc⟩ := Option.ne_none_iff_exists'.1 hw
      have hsame := h.writer i c hpc
      rw [hc] at hsame
      cases p with
      | idle => exact absurd hpc (by simp [Position.coroutine])
      | begins j =>
        simp only [Position.coroutine] at hpc
        split_ifs at hpc
        rw [← Option.some.inj hpc] at hsame
        exact absurd hsame (by simp)
      | waits j w' => exact hp j w' rfl
    cases p with
    | idle => exact hquiet (by simp)
    | begins j => exact hquiet (by simp)
    | waits j w =>
      refine ⟨j, w, ?_, h.queued j w rfl, rfl⟩
      exact pending_of_coroutine (h.writer j (.write w) (by simp [Position.coroutine]))
  · intro hqueue
    apply hsome.2
    intro hp
    exact hqueue (h.empty hp)

/-! ## One step -/

/-- a queued write is the one the position is about -/
theorem Shape.eq_waits {s : WritePath} {p : Position} (h : s.Shape p) {i : ℕ} {w : PendingWrite}
    (hi : s.coroutines i = some (.write w)) (hq : w.queued = true) : p = .waits i w := by
  have hw := (h.isWriter_iff i).1 (.inr ⟨w, hi, hq⟩)
  obtain ⟨c, hc⟩ := Option.ne_none_iff_exists'.1 hw
  have hsame := h.writer i c hc
  rw [hi] at hsame
  obtain rfl := Option.some.inj hsame
  cases p with
  | idle => exact absurd hc (by simp [Position.coroutine])
  | begins j =>
    simp only [Position.coroutine] at hc
    split_ifs at hc
    exact absurd hc (by simp)
  | waits j w' =>
    simp only [Position.coroutine] at hc
    split_ifs at hc with hij
    obtain rfl : w' = w := by simpa using hc
    rw [hij]

theorem Shape.eq_begins {s : WritePath} {p : Position} (h : s.Shape p) {i : ℕ}
    (hi : s.coroutines i = some .processWriteQueue) : p = .begins i := by
  have hw := (h.isWriter_iff i).1 (.inl hi)
  obtain ⟨c, hc⟩ := Option.ne_none_iff_exists'.1 hw
  have hsame := h.writer i c hc
  rw [hi] at hsame
  obtain rfl := Option.some.inj hsame
  cases p with
  | idle => exact absurd hc (by simp [Position.coroutine])
  | begins j =>
    simp only [Position.coroutine] at hc
    split_ifs at hc with hij
    rw [hij]
  | waits j w =>
    simp only [Position.coroutine] at hc
    split_ifs at hc
    exact absurd hc (by simp)

/-- a coroutine that is no writer, before and after -/
def Quiet : Option Coroutine → Prop
  | some (.write w) => w.queued = false
  | some .processWriteQueue => False
  | none => True

theorem not_isWriter_of_quiet {s : WritePath} {i : ℕ} (h : Quiet (s.coroutines i)) : ¬ s.IsWriter i := by
  rintro (hp | ⟨w, hw, hq⟩)
  · rw [hp] at h
    exact h
  · rw [hw] at h
    exact absurd (h.symm.trans hq) (by simp)

/-- a coroutine that is no writer may change as it likes -/
theorem Shape.setCoroutine {s : WritePath} {p : Position} (h : s.Shape p) {i : ℕ} {c : Option Coroutine}
    (hi : i < s.spawned) (hold : Quiet (s.coroutines i)) (hc : Quiet c) : (s.setCoroutine i c).Shape p := by
  have hp : p.coroutine i = none := by
    by_contra hsome
    exact not_isWriter_of_quiet hold ((h.isWriter_iff i).2 hsome)
  exact
    { connected := h.connected
      socket := h.socket
      fresh := by
        intro j hj
        have hne : j ≠ i := by
          rintro rfl
          exact absurd hj (Nat.not_le.2 hi)
        simp only [WritePath.setCoroutine, Function.update_of_ne hne]
        exact h.fresh j hj
      flag := h.flag
      writer := by
        intro j c' hj
        have hne : j ≠ i := by
          rintro rfl
          rw [hp] at hj
          exact absurd hj (by simp)
        simp only [WritePath.setCoroutine, Function.update_of_ne hne]
        exact h.writer j c' hj
      others := by
        intro j hj
        by_cases hji : j = i
        · apply not_isWriter_of_quiet
          rw [hji]
          simpa [WritePath.setCoroutine] using hc
        · have hold' := h.others j hj
          simpa [IsWriter, WritePath.setCoroutine, Function.update_of_ne hji] using hold'
      queued := h.queued
      empty := h.empty
      fifo := h.fifo }

/-- only coroutine `i` has changed, and it is where `p` says -/
theorem Shape.of_update {s s' : WritePath} {p : Position} {i : ℕ} {c : Option Coroutine}
    (hcoroutines : s'.coroutines = Function.update s.coroutines i c)
    (hp : ∀ j, p.coroutine j = if j = i then c else none)
    (hfresh : ∀ j, s'.spawned ≤ j → j ≠ i ∧ s.coroutines j = none) (hothers : ∀ j, j ≠ i → ¬ s.IsWriter j)
    (hconn : s'.connected = true) (hsock : s'.socket ≠ 0) (hflag : s'.writeInProgress = true ↔ p ≠ .idle)
    (hqueued : ∀ w, p = .waits i w → w.queued = true) (hempty : p = .idle → s'.writeQueue = [])
    (hfifo : s'.completed ++ p.frames ++ s'.writeQueue = s'.sent.map Outgoing.encoded) : s'.Shape p where
  connected := hconn
  socket := hsock
  fresh := by
    intro j hj
    obtain ⟨hne, hnone⟩ := hfresh j hj
    rw [hcoroutines, Function.update_of_ne hne]
    exact hnone
  flag := hflag
  writer := by
    intro j c' hj
    rw [hp j] at hj
    split_ifs at hj with hji
    rw [hcoroutines, hji, Function.update_self]
    exact hj
  others := by
    intro j hj
    rw [hp j] at hj
    by_cases hji : j = i
    · rw [if_pos hji] at hj
      apply not_isWriter_of_quiet
      rw [hcoroutines, hji, Function.update_self, hj]
      trivial
    · have hold := hothers j hji
      simpa [IsWriter, hcoroutines, Function.update_of_ne hji] using hold
  queued := by
    intro j w hw
    have hj := hp j
    rw [hw] at hj
    simp only [Position.coroutine, if_true] at hj
    split_ifs at hj with hji
    exact hqueued w (hji ▸ hw)
  empty := hempty
  fifo := hfifo

/-- a number that has a coroutine was spawned -/
theorem lt_spawned {s : WritePath} (hfresh : ∀ j, s.spawned ≤ j → s.coroutines j = none) {i : ℕ} {c : Coroutine}
    (hi : s.coroutines i = some c) : i < s.spawned := by
  by_contra hle
  rw [hfresh i (Nat.not_lt.1 hle)] at hi
  exact absurd hi (by simp)

/-- the loop of `process_write_queue`: it waits for the next frame, or ends with the queue empty -/
theorem processWriteQueue_shape {s : WritePath} {i : ℕ} (hconn : s.connected = true) (hsock : s.socket ≠ 0)
    (hfresh : ∀ j, s.spawned ≤ j → s.coroutines j = none) (hi : i < s.spawned)
    (hothers : ∀ j, j ≠ i → ¬ s.IsWriter j) (hflag : s.writeInProgress = true)
    (hfifo : s.completed ++ s.writeQueue = s.sent.map Outgoing.encoded) :
    ∃ p, (s.processWriteQueue i).Shape p := by
  have hfresh' : ∀ j, s.spawned ≤ j → j ≠ i ∧ s.coroutines j = none := by
    intro j hj
    have hne : j ≠ i := by omega
    exact ⟨hne, hfresh j hj⟩
  rcases hq : s.writeQueue with _ | ⟨data, queue⟩
  · rw [processWriteQueue_nil hq]
    refine ⟨.idle, Shape.of_update (s := s) (i := i) (c := none) rfl ?_ hfresh' hothers hconn hsock ?_ ?_ ?_ ?_⟩
    · simp [Position.coroutine]
    · simp [WritePath.setCoroutine]
    · simp
    · exact fun _ => hq
    · simpa [Position.frames, WritePath.setCoroutine] using hfifo
  · rw [processWriteQueue_cons hq hconn hsock]
    have hcoroutine : ∀ j, Position.coroutine (.waits i ⟨s.socket, data, 0, true⟩) j =
        if j = i then some (.write ⟨s.socket, data, 0, true⟩) else none := fun j => rfl
    refine ⟨.waits i ⟨s.socket, data, 0, true⟩,
      Shape.of_update (s := s) rfl hcoroutine hfresh' hothers hconn hsock ?_ ?_ ?_ ?_⟩
    · simpa [WritePath.setCoroutine] using hflag
    · intro w hw
      obtain ⟨-, rfl⟩ : i = i ∧ (⟨s.socket, data, 0, true⟩ : PendingWrite) = w := by simpa using hw
      rfl
    · simp
    · rw [hq] at hfifo
      simpa [Position.frames, WritePath.setCoroutine] using hfifo

theorem Shape.sendMessage {s : WritePath} {p : Position} (h : s.Shape p) (m : Outgoing) :
    ∃ p', (s.sendMessage m).Shape p' := by
  have hfifo := h.fifo
  by_cases hlogs : m.message.Logs s.logging
  swap
  · rw [sendMessage_unlogged hlogs]
    exact ⟨p, h⟩
  rcases hflag : s.writeInProgress with _ | _
  · -- nothing is queued and nobody writes: a writer begins at the next free number
    rw [sendMessage_spawned hlogs hflag]
    obtain rfl : p = .idle := by
      by_contra hp
      exact absurd (hflag.symm.trans (h.flag.2 hp)) (by simp)
    have hqueue := h.empty rfl
    simp only [Position.frames, hqueue, List.append_nil] at hfifo
    refine ⟨.begins s.spawned, Shape.of_update (s := s) (i := s.spawned) (c := some .processWriteQueue) rfl
      (fun j => rfl) ?_ (fun j _ => h.others j rfl) h.connected h.socket ?_ ?_ ?_ ?_⟩
    · intro j hj
      have hj' : s.spawned + 1 ≤ j := hj
      have hne : j ≠ s.spawned := by omega
      exact ⟨hne, h.fresh j (by omega)⟩
    · simp [spawn]
    · simp
    · simp
    · simp [Position.frames, spawn, hqueue, hfifo]
  · rw [sendMessage_queued hlogs hflag]
    have hp := h.flag.1 hflag
    refine ⟨p, { h with
      empty := fun hidle => absurd hidle hp
      fifo := ?_ }⟩
    simp only [List.map_append, ← hfifo]
    simp

theorem Shape.writeMessage {s : WritePath} {p : Position} (h : s.Shape p) (m : Outgoing) :
    (s.writeMessage m).Shape p := by
  rw [WritePath.writeMessage]
  split_ifs with hlogs
  · have hmore : ({ s with spawned := s.spawned + 1 } : WritePath).Shape p := by
      refine { h with fresh := ?_ }
      intro j hj
      have hj' : s.spawned + 1 ≤ j := hj
      exact h.fresh j (by omega)
    have hfree := h.fresh s.spawned le_rfl
    apply hmore.setCoroutine (Nat.lt_succ_self s.spawned)
    · change Quiet (s.coroutines s.spawned)
      rw [hfree]
      trivial
    · rfl
  · exact h

theorem Shape.put {s : WritePath} {p : Position} (h : s.Shape p) {i : ℕ} {w : PendingWrite}
    (hi : s.coroutines i = some (.write w)) (n : ℕ) : ∃ p', (s.put i w n).Shape p' := by
  have hlt := lt_spawned h.fresh hi
  rcases hq : w.queued with _ | _
  · have hwire : ∀ wire, ({ s with wire := wire } : WritePath).Shape p := fun wire => { h with }
    refine ⟨p, (hwire _).setCoroutine hlt ?_ hq⟩
    change Quiet (s.coroutines i)
    rw [hi]
    exact hq
  · obtain rfl := h.eq_waits hi hq
    have hcoroutine : ∀ w' j, Position.coroutine (.waits i w') j = if j = i then some (.write w') else none :=
      fun w' j => rfl
    refine ⟨.waits i { w with written := min (w.written + n) w.frame.length },
      Shape.of_update (s := s) rfl (hcoroutine _) ?_ ?_ h.connected h.socket ?_ ?_ ?_ h.fifo⟩
    · intro j hj
      have hj' : s.spawned ≤ j := hj
      have hne : j ≠ i := by omega
      exact ⟨hne, h.fresh j hj'⟩
    · intro j hj
      exact h.others j (by simp [Position.coroutine, hj])
    · exact h.flag.trans (by simp)
    · intro w' hw'
      obtain ⟨-, rfl⟩ : i = i ∧ _ = w' := by simpa using hw'
      exact hq
    · simp

theorem Shape.complete {s : WritePath} {p : Position} (h : s.Shape p) {i : ℕ} {w : PendingWrite}
    (hi : s.coroutines i = some (.write w)) : ∃ p', (s.complete i w).Shape p' := by
  have hlt := lt_spawned h.fresh hi
  rw [WritePath.complete]
  split_ifs with hq
  · obtain rfl := h.eq_waits hi hq
    apply processWriteQueue_shape (s := { s with completed := s.completed ++ [w.frame] }) h.connected h.socket
      h.fresh hlt
    · intro j hj
      exact h.others j (by simp [Position.coroutine, hj])
    · exact h.flag.2 (by simp)
    · simpa [Position.frames] using h.fifo
  · refine ⟨p, h.setCoroutine hlt ?_ trivial⟩
    rw [hi]
    simpa [Quiet] using hq

/-- **One event while the connection is up.** -/
theorem Shape.step {s : WritePath} {p : Position} (h : s.Shape p) (e : WriteEvent) (he : s.StaysUp e) :
    ∃ p', (step s e).Shape p' := by
  cases e with
  | sendMessage m => exact h.sendMessage m
  | writeMessage m => exact ⟨p, h.writeMessage m⟩
  | begin i =>
    rw [WritePath.step]
    split_ifs with hi
    · obtain rfl := h.eq_begins hi
      apply processWriteQueue_shape h.connected h.socket h.fresh (lt_spawned h.fresh hi)
      · intro j hj
        exact h.others j (by simp [Position.coroutine, hj])
      · exact h.flag.2 (by simp)
      · simpa [Position.frames] using h.fifo
    · exact ⟨p, h⟩
  | put i n =>
    rw [WritePath.step]
    rcases hi : s.pending i with _ | w
    · exact ⟨p, h⟩
    · simp only
      split_ifs
      · exact h.put (coroutine_of_pending hi) n
      · exact ⟨p, h⟩
  | complete i =>
    rw [WritePath.step]
    rcases hi : s.pending i with _ | w
    · exact ⟨p, h⟩
    · simp only
      split_ifs
      · exact h.complete (coroutine_of_pending hi)
      · exact ⟨p, h⟩
  | fail i => exact absurd he (by simp [StaysUp])
  | lost => exact absurd he (by simp [StaysUp])
  | connect => exact absurd he (by simp [StaysUp])
  | authenticated => exact ⟨p, { h with connected := rfl }⟩

/-! ## What is sent -/

theorem processWriteQueue_kept (s : WritePath) (i : ℕ) :
    (s.processWriteQueue i).logging = s.logging ∧ (s.processWriteQueue i).sent = s.sent ∧
      (s.processWriteQueue i).wire = s.wire ∧ (s.processWriteQueue i).socket = s.socket ∧
      (s.processWriteQueue i).completed = s.completed := by
  rw [WritePath.processWriteQueue]
  split
  · exact ⟨rfl, rfl, rfl, rfl, rfl⟩
  · split_ifs <;> exact ⟨rfl, rfl, rfl, rfl, rfl⟩

theorem sent_sendMessage (s : WritePath) (m : Outgoing) :
    (s.sendMessage m).logging = s.logging ∧ (s.sendMessage m).wire = s.wire ∧ (s.sendMessage m).socket = s.socket ∧
      (s.sendMessage m).completed = s.completed ∧
      (s.sendMessage m).sent = s.sent ++ sends s.logging [.sendMessage m] := by
  by_cases hlogs : m.message.Logs s.logging
  swap
  · rw [sendMessage_unlogged hlogs]
    simp [sends, hlogs]
  rcases hflag : s.writeInProgress with _ | _
  · rw [sendMessage_spawned hlogs hflag]
    simp [sends, hlogs, spawn]
  · rw [sendMessage_queued hlogs hflag]
    simp [sends, hlogs]

/-- one event: the logging stays, and only `send_message` adds to what is sent -/
theorem sent_step (s : WritePath) (e : WriteEvent) :
    (step s e).logging = s.logging ∧ (step s e).sent = s.sent ++ sends s.logging [e] := by
  cases e with
  | sendMessage m =>
    obtain ⟨hlogging, -, -, -, hsent⟩ := sent_sendMessage s m
    exact ⟨hlogging, hsent⟩
  | writeMessage m =>
    rw [WritePath.step, WritePath.writeMessage]
    split_ifs <;> simp [sends, spawn]
  | begin i =>
    rw [WritePath.step]
    split_ifs
    · obtain ⟨hlogging, hsent, -⟩ := processWriteQueue_kept s i
      simp [sends, hlogging, hsent]
    · simp [sends]
  | put i n =>
    rw [WritePath.step]
    rcases s.pending i with _ | w
    · simp [sends]
    · simp only
      split_ifs <;> simp [sends, WritePath.put, setCoroutine]
  | complete i =>
    rw [WritePath.step]
    rcases s.pending i with _ | w
    · simp [sends]
    · simp only [WritePath.complete]
      split_ifs
      · obtain ⟨hlogging, hsent, -⟩ := processWriteQueue_kept { s with completed := s.completed ++ [w.frame] } i
        simp [sends, hlogging, hsent]
      · simp [sends, setCoroutine]
      · simp [sends]
  | fail i =>
    rw [WritePath.step]
    rcases s.pending i with _ | w
    · simp [sends]
    · simp only [WritePath.fail]
      split_ifs <;> simp [sends, setCoroutine]
  | lost => simp [WritePath.step, sends]
  | connect =>
    rw [WritePath.step]
    split_ifs <;> simp [sends, WritePath.connect]
  | authenticated => simp [WritePath.step, sends]

theorem sent_run (s : WritePath) (events : List WriteEvent) :
    (s.run events).sent = s.sent ++ sends s.logging events := by
  induction events generalizing s with
  | nil => simp [sends]
  | cons e events ih =>
    obtain ⟨hlogging, hsent⟩ := sent_step s e
    have hsplit : sends s.logging (e :: events) = sends s.logging [e] ++ sends s.logging events :=
      List.filterMap_append (l := [e])
    rw [WritePath.run, Run.run_cons]
    calc (Run.run step (step s e) events).sent
        = (step s e).sent ++ sends (step s e).logging events := ih (step s e)
      _ = s.sent ++ sends s.logging (e :: events) := by rw [hlogging, hsent, hsplit, List.append_assoc]

/-! ## What is on the wire -/

/-- only `process_write_queue` writes, to the current socket, and the socket has carried what it wrote -/
structure Sole (s : WritePath) (before : Bytes) : Prop where
  writes : ∀ i w, s.pending i = some w → w.queued = true ∧ w.socket = s.socket ∧ w.written ≤ w.frame.length
  carried : s.Carried before

/-- the loop of `process_write_queue`, where no other write is pending -/
theorem Sole.processWriteQueue {s : WritePath} {before : Bytes} {i : ℕ} (hothers : ∀ j, j ≠ i → s.pending j = none)
    (hwire : s.wire s.socket = before ++ s.completed.flatten) : (s.processWriteQueue i).Sole before := by
  obtain ⟨-, -, hw, hs, hc⟩ := processWriteQueue_kept s i
  have hwire' : (s.processWriteQueue i).wire (s.processWriteQueue i).socket =
      before ++ (s.processWriteQueue i).completed.flatten ++ [] := by rw [hw, hs, hc, hwire, List.append_nil]
  have hended : ∀ j, (({ s with writeInProgress := false } : WritePath).setCoroutine i none).pending j = none := by
    intro j
    rw [pending_setCoroutine]
    by_cases hj : j = i
    · rw [if_pos hj]
      rfl
    · rw [if_neg hj]
      exact hothers j hj
  have hstops : s.processWriteQueue i = ({ s with writeInProgress := false } : WritePath).setCoroutine i none →
      (s.processWriteQueue i).Sole before := by
    intro heq
    refine ⟨fun j w hj => ?_, [], .inl ⟨fun j => ?_, rfl⟩, hwire'⟩
    · rw [heq, hended j] at hj
      exact absurd hj (by simp)
    · rw [heq]
      exact hended j
  rcases hq : s.writeQueue with _ | ⟨data, queue⟩
  · exact hstops (processWriteQueue_nil hq i)
  · by_cases hup : (s.connected && decide (s.socket ≠ 0)) = true
    swap
    · exact hstops (processWriteQueue_down (by simpa using hup) i)
    · have heq : s.processWriteQueue i =
          ({ s with writeQueue := queue } : WritePath).setCoroutine i (some (.write ⟨s.socket, data, 0, true⟩)) := by
        rw [WritePath.processWriteQueue, hq]
        exact if_pos (by simpa using hup)
      have hpending : ∀ j, (s.processWriteQueue i).pending j =
          if j = i then some ⟨s.socket, data, 0, true⟩ else none := by
        intro j
        rw [heq, pending_setCoroutine]
        by_cases hj : j = i
        · rw [if_pos hj, if_pos hj]
          rfl
        · rw [if_neg hj, if_neg hj]
          exact hothers j hj
      refine ⟨fun j w hj => ?_, [], .inr ⟨i, ⟨s.socket, data, 0, true⟩, ?_, rfl⟩, hwire'⟩
      · rw [hpending j] at hj
        split_ifs at hj
        obtain rfl := Option.some.inj hj
        exact ⟨rfl, hs.symm, Nat.zero_le _⟩
      · rw [hpending i, if_pos rfl]

theorem Sole.sendMessage {s : WritePath} {p : Position} {before : Bytes} (hs : s.Shape p) (h : s.Sole before)
    (m : Outgoing) : (s.sendMessage m).Sole before := by
  obtain ⟨-, hwire, hsocket, hcompleted, -⟩ := sent_sendMessage s m
  have hpending : (s.sendMessage m).pending = s.pending := by
    funext j
    by_cases hlogs : m.message.Logs s.logging
    swap
    · rw [sendMessage_unlogged hlogs]
    rcases hflag : s.writeInProgress with _ | _
    · rw [sendMessage_spawned hlogs hflag]
      by_cases hj : j = s.spawned
      · have hfree := hs.fresh s.spawned le_rfl
        simp [pending, spawn, hj, hfree, Coroutine.pendingWrite]
      · simp [pending, spawn, Function.update_of_ne hj]
    · rw [sendMessage_queued hlogs hflag]
      rfl
  obtain ⟨part, hpart, hon⟩ := h.carried
  refine ⟨fun i w hi => ?_, part, ?_, ?_⟩
  · rw [hpending] at hi
    rw [hsocket]
    exact h.writes i w hi
  · rw [Part, hpending]
    exact hpart
  · rw [hwire, hsocket, hcompleted, hon]

/-- the one pending write, and what the socket has carried of it -/
theorem Sole.writing {s : WritePath} {p : Position} {before : Bytes} (hs : s.Shape p) (h : s.Sole before) {i : ℕ}
    {w : PendingWrite} (hi : s.pending i = some w) :
    (∀ j, j ≠ i → s.pending j = none) ∧
      s.wire s.socket = before ++ s.completed.flatten ++ w.frame.take w.written := by
  have hqueued : ∀ {j w'}, s.pending j = some w' → s.IsWriter j := fun {j w'} hj =>
    .inr ⟨w', coroutine_of_pending hj, (h.writes j w' hj).1⟩
  have honly : ∀ j, j ≠ i → s.pending j = none := by
    intro j hj
    by_contra hsome
    obtain ⟨w', hw'⟩ := Option.ne_none_iff_exists'.1 hsome
    exact hj (hs.isLossless.one j i (hqueued hw') (hqueued hi))
  refine ⟨honly, ?_⟩
  obtain ⟨part, ⟨hnone, -⟩ | ⟨j, w', hj, rfl⟩, hon⟩ := h.carried
  · exact absurd (hnone i) (by simp [hi])
  · obtain rfl : j = i := by
      by_contra hne
      exact absurd (honly j hne) (by simp [hj])
    obtain rfl : w' = w := Option.some.inj (hj.symm.trans hi)
    exact hon

theorem Sole.put {s : WritePath} {p : Position} {before : Bytes} (hs : s.Shape p) (h : s.Sole before) {i : ℕ}
    {w : PendingWrite} (hi : s.pending i = some w) (n : ℕ) : (s.put i w n).Sole before := by
  obtain ⟨hqueued, hsocket, -⟩ := h.writes i w hi
  obtain ⟨-, hon⟩ := h.writing hs hi
  refine ⟨fun j w' hj => ?_, w.frame.take (min (w.written + n) w.frame.length),
    .inr ⟨i, { w with written := min (w.written + n) w.frame.length }, ?_, rfl⟩, ?_⟩
  · rw [pending_put] at hj
    split_ifs at hj
    · obtain rfl := Option.some.inj hj
      exact ⟨hqueued, hsocket, Nat.min_le_right _ _⟩
    · exact h.writes j w' hj
  · rw [pending_put, if_pos rfl]
  · have htake : w.frame.take (min (w.written + n) w.frame.length) =
        w.frame.take w.written ++ (w.frame.drop w.written).take n := by
      rw [← List.take_eq_take_min, List.take_add]
    simp only [WritePath.put, setCoroutine]
    rw [hsocket, Function.update_self, hon, htake, List.append_assoc]

theorem Sole.complete {s : WritePath} {p : Position} {before : Bytes} (hs : s.Shape p) (h : s.Sole before) {i : ℕ}
    {w : PendingWrite} (hi : s.pending i = some w) (hall : w.written = w.frame.length) :
    (s.complete i w).Sole before := by
  obtain ⟨hqueued, -, -⟩ := h.writes i w hi
  obtain ⟨honly, hon⟩ := h.writing hs hi
  rw [WritePath.complete, if_pos hqueued]
  apply Sole.processWriteQueue (s := { s with completed := s.completed ++ [w.frame] })
  · exact honly
  · simpa [hall] using hon

/-- one event that is no `write_message`, while the connection is up -/
theorem Sole.step {s : WritePath} {p : Position} {before : Bytes} (hs : s.Shape p) (h : s.Sole before)
    (e : WriteEvent) (he : s.StaysUp e) (hown : ∀ m, e ≠ .writeMessage m) : (step s e).Sole before := by
  cases e with
  | sendMessage m => exact h.sendMessage hs m
  | writeMessage m => exact absurd rfl (hown m)
  | begin i =>
    rw [WritePath.step]
    split_ifs with hi
    · -- the one writer has begun: nothing is pending
      have hnone : ∀ j, s.pending j = none := by
        intro j
        by_contra hsome
        obtain ⟨w, hw⟩ := Option.ne_none_iff_exists'.1 hsome
        have hj := coroutine_of_pending hw
        obtain rfl := hs.isLossless.one j i (.inr ⟨w, hj, (h.writes j w hw).1⟩) (.inl hi)
        exact absurd (hi.symm.trans hj) (by simp)
      obtain ⟨part, ⟨-, rfl⟩ | ⟨j, w, hj, -⟩, hon⟩ := h.carried
      · exact Sole.processWriteQueue (fun j _ => hnone j) (by simpa using hon)
      · exact absurd (hnone j) (by simp [hj])
    · exact h
  | put i n =>
    rw [WritePath.step]
    rcases hi : s.pending i with _ | w
    · exact h
    · simp only
      split_ifs
      · exact h.put hs hi n
      · exact h
  | complete i =>
    rw [WritePath.step]
    rcases hi : s.pending i with _ | w
    · exact h
    · simp only
      split_ifs with hall
      · exact h.complete hs hi hall.2
      · exact h
  | fail i => exact absurd he (by simp [StaysUp])
  | lost => exact absurd he (by simp [StaysUp])
  | connect => exact absurd he (by simp [StaysUp])
  | authenticated => exact ⟨h.writes, h.carried⟩

/-! ## Runs -/

/-- the writer stays in shape -/
theorem Shape.run {s : WritePath} {p : Position} (h : s.Shape p) (events : List WriteEvent)
    (hup : Run.Steps WritePath.step StaysUp s events) : ∃ p', (s.run events).Shape p' := by
  apply Run.invariant (I := fun s => ∃ p, s.Shape p) (p := StaysUp) _ s events ⟨p, h⟩ hup
  rintro s e ⟨p, hp⟩ he
  exact hp.step e he

theorem Sole.run {s : WritePath} {p : Position} {before : Bytes} (hs : s.Shape p) (h : s.Sole before)
    (events : List WriteEvent) (hup : Run.Steps WritePath.step StaysUp s events)
    (hown : ∀ m, WriteEvent.writeMessage m ∉ events) : (s.run events).Sole before := by
  induction events generalizing s p with
  | nil => exact h
  | cons e events ih =>
    obtain ⟨p', hp'⟩ := hs.step e hup.1
    have hstep := h.step hs e hup.1 fun m he => hown m (he ▸ List.mem_cons_self)
    exact ih hp' hstep hup.2 fun m hm => hown m (List.mem_cons_of_mem e hm)

/-- **The write queue is a lossless FIFO without lost wake-ups**, from an idle connection on and as long as it stays
up. -/
theorem lossless (s : WritePath) (h : s.Idle) (events : List WriteEvent)
    (hup : Run.Steps step StaysUp s events) :
    (s.run events).Lossless (sends s.logging events) ∧
      (s.Alone events → (s.run events).Carried (s.wire s.socket)) := by
  constructor
  · obtain ⟨p, hp⟩ := h.shape.run events hup
    have hsent : (s.run events).sent = sends s.logging events := by
      rw [sent_run, h.sent, List.nil_append]
    exact hsent ▸ hp.isLossless
  · rintro ⟨hnone, hown⟩
    have hstart : s.Sole (s.wire s.socket) := by
      refine ⟨fun i w hi => absurd hi (by simp [hnone i]), [], .inl ⟨hnone, rfl⟩, ?_⟩
      simp [h.completed]
    exact (hstart.run h.shape events hup hown).carried

/-- a message without fields -/
def plain (type : MessageType) : Outgoing := ⟨{ messageType := type }, [], List.Perm.refl _⟩

/-- a first connection after its authentication -/
def firstConnection : WritePath := run {} [.connect, .authenticated]

/-- two messages of the queue, the second sent while the first is on its way -/
def twoMessages : List WriteEvent :=
  [.sendMessage (plain .keepAlive), .begin 0, .put 0 1, .sendMessage (plain .ok), .put 0 1, .complete 0]

theorem lossless_two :
    (firstConnection.run twoMessages).Lossless (sends true twoMessages) ∧
      (firstConnection.Alone twoMessages → (firstConnection.run twoMessages).Carried []) := by
  apply lossless firstConnection
  · refine ⟨rfl, by decide, rfl, rfl, ?_, fun _ _ => rfl, rfl, rfl⟩
    rintro i (h | ⟨w, h, -⟩)
    · exact absurd h (by simp [firstConnection, run, step, connect])
    · exact absurd h (by simp [firstConnection, run, step, connect])
  · simp [twoMessages, Run.Steps, StaysUp]

end Iotmp.WritePath
