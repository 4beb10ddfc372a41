/-
Who keeps a file transfer session alive.

Strong references to a session: the coroutine of `stream_manager::start` until it ends, the pointer that the manager
locks for a call, and `self_reference_`, from `start` to the middle of `stop`. Posted closures and timer handlers
capture a raw `this`.

- `stopStatements`: the statements of `stop` after the test for a second one. `stopCall`: when an event gets there, in
  which state and with which reason.
- `SessionClass.code`: a class of sessions as code that a self reference keeps alive; `sessionClass`: the two classes.
- `sessions_owned_iff`: every statement runs while someone owns the session, and no closure or handler outlives it,
  exactly if no handler calls `stop` after the starting coroutine has ended, and nothing is posted or due when a call of
  the manager, or the end of that coroutine, drops the last reference.
- Counterexample `stopped_unowned`: the timeouts call `stop` with only the self reference left, and a posted
  `send_next_chunk` outlives a download that the server stops.
-/
import Mathlib.Tactic
import Iotmp.Lib.Ownership
import Iotmp.Fs.DownloadBytes
import Iotmp.Fs.Upload

namespace Iotmp

open Ownership
open FileDownload (DownloadEvent)
open FileUpload (UploadEvent)

/-! ## Session classes -/

/-- the start of a session with what it finds, or what happens to it later -/
inductive SessionEvent (π ε : Type) where
  | start (probe : π)
  | event (e : ε)

/-- a class of sessions with its `stop`, which drops the self reference before its last statement -/
structure SessionClass (σ π ε : Type) where
  /-- run once, by the starting coroutine -/
  start : σ → π → σ
  step : σ → ε → σ
  callerOf : ε → Caller
  selfReference : σ → Bool
  /-- closures that are posted and timer handlers that are due -/
  pending : σ → ℕ
  queued : σ → ε → Bool
  /-- what follows the test for a second stop -/
  stopStatements : StopReason → List (σ → σ)
  /-- the state in which an event gets past that test, and the reason -/
  stopCall : σ → ε → Option (σ × StopReason)
  queued_pos : ∀ s e, queued s e = true → 0 < pending s
  stops : ∀ s e t reason, stopCall s e = some (t, reason) →
    step s e = (stopStatements reason).foldl (fun s statement => statement s) t
  goesOn : ∀ s e, stopCall s e = none → selfReference (step s e) = selfReference s
  stop_drops : ∀ t reason,
    selfReference ((stopStatements reason).foldl (fun s statement => statement s) t) = false ∧
      ∃ x ∈ statesBefore (stopStatements reason) t, selfReference x = false
  clock : ∀ s e, callerOf e = .clock → stopCall s e = none
  lock : ∀ s e, callerOf e = .lock → pending (step s e) = pending s ∨ stopCall s e = none

/-- the starting coroutine is the creator -/
def SessionClass.code {σ π ε : Type} (c : SessionClass σ π ε) : Code σ (SessionEvent π ε) where
  step s
    | .start probe => c.start s probe
    | .event e => c.step s e
  caller
    | .start _ => .creator
    | .event e => c.callerOf e
  selfReference := c.selfReference
  pending := c.pending
  queued s
    | .start _ => false
    | .event e => c.queued s e
  accesses s
    | .start _ => [s]
    | .event e =>
      s :: match c.stopCall s e with
        | none => []
        | some (t, reason) => statesBefore (c.stopStatements reason) t
  Drops s
    | .start _ => False
    | .event e => (c.stopCall s e).isSome
  queued_pos s e h := by
    cases e with
    | start probe => cases h
    | event e => exact c.queued_pos s e h
  keeps s e hc hd := by
    cases e with
    | start probe => exact absurd rfl hc
    | event e =>
      have hnone : c.stopCall s e = none := by simpa using hd
      exact ⟨c.goesOn s e hnone, fun x hx => by simp only [hnone, List.mem_singleton] at hx; rw [hx]⟩
  drops s e hd := by
    cases e with
    | start probe => exact absurd hd id
    | event e =>
      obtain ⟨⟨t, reason⟩, hsome⟩ := Option.isSome_iff_exists.1 hd
      obtain ⟨hlast, x, hx, hself⟩ := c.stop_drops t reason
      refine ⟨?_, x, ?_, hself⟩
      · simp only [c.stops s e t reason hsome]
        exact hlast
      · simp only [hsome]
        exact List.mem_cons_of_mem s hx
  clock_keeps s e hc := by
    cases e with
    | start probe => cases hc
    | event e => exact c.goesOn s e (c.clock s e hc)
  call_pending s e hc hd := by
    cases e with
    | start probe => cases hc
    | event e =>
      rcases c.lock s e hc with hpending | hnone
      · exact hpending
      · exact absurd hd (by simp [hnone])

/-! ## Downloads -/

namespace FileDownload

def stopStatements (reason : StopReason) : List (FileDownload → FileDownload) :=
  [fun s => { s with stopping := true },
    fun s => { s with ackTimer := s.ackTimer.reset },
    fun s => { s with completionTimer := s.completionTimer.reset },
    fun s => { s with rateLimitTimer := s.rateLimitTimer.reset },
    fun s => { s with selfReference := false },
    fun s => { s with fileStream := { s.fileStream with isOpen := false } },
    fun s => { s with state := s.stopState reason }]

theorem stop_eq_statements {s : FileDownload} (hs : s.stopping = false) (reason : StopReason) :
    s.stop reason = (stopStatements reason).foldl (fun s statement => statement s) s := by
  rw [stop, hs]
  cases reason <;> rfl

/-- step 6 of `send_next_chunk` gets past the test for a second stop -/
def StopsSending (s : FileDownload) : Prop :=
  s.state ≠ .inProgress ∧ s.state ≠ .completed ∧ s.bytesInFlight = 0 ∧ s.stopping = false

instance (s : FileDownload) : Decidable s.StopsSending := inferInstanceAs (Decidable (_ ∧ _ ∧ _ ∧ _))

/-- an ACK for `n` bytes empties the window of a session that is over, or whose file has ended early -/
def StopsAtAck (s : FileDownload) (n : ℕ) : Prop :=
  n ≤ s.bytesInFlight ∧ s.waitingForAck = true ∧ s.bytesInFlight - n < s.config.windowSize ∧ s.bytesInFlight - n = 0 ∧
    s.state ≠ .completed ∧ (s.state = .inProgress → s.fileStream.eof = true ∧ s.bytesTransferred < s.fileSize) ∧
    s.stopping = false

instance (s : FileDownload) (n : ℕ) : Decidable (s.StopsAtAck n) :=
  inferInstanceAs (Decidable (_ ∧ _ ∧ _ ∧ _ ∧ _ ∧ (_ → _) ∧ _))

/-- the state in which an event calls `stop` for the first time, and the reason -/
def stopCall (s : FileDownload) : DownloadEvent → Option (FileDownload × StopReason)
  | .posted _ =>
    let t := { s with posted := s.posted - 1 }
    if s.posted ≠ 0 ∧ t.StopsSending then some (t, .clientStop) else none
  | .expired _ => none
  | .ackTimeout =>
    match s.ackTimer.next with
    | none => none
    | some (_, timer) =>
      if s.waitingForAck ∧ timer.present ∧ !s.stopping then
        some ({ s with
          state := .timedOut
          errorMessage := "Timeout waiting for acknowledgments"
          ackTimer := timer.reset }, .clientStop)
      else none
  | .rateLimit _ =>
    match s.rateLimitTimer.next with
    | none => none
    | some (_, timer) =>
      let t := { s with rateLimitTimer := timer }
      if t.StopsSending then some (t, .clientStop) else none
  | .completionTimeout =>
    match s.completionTimer.next with
    | none => none
    | some (_, timer) =>
      if s.selfReference ∧ !s.stopping then
        some ({ s with
          completionTimer := timer
          state := .timedOut
          errorMessage := "Timeout waiting for server response" }, .clientStop)
      else none
  | .input v =>
    match s.ackBytes v with
    | none => none
    | some n =>
      if s.StopsAtAck n then
        some ({ s with
          bytesInFlight := s.bytesInFlight - n
          waitingForAck := false
          ackTimer := s.ackTimer.reset }, .clientStop)
      else none
  | .stop reason => if s.stopping then none else some (s, reason)

theorem sendNextChunk_stops {s : FileDownload} (h : s.StopsSending) (io : ChunkIo) :
    s.sendNextChunk io = s.stop .clientStop := by
  obtain ⟨hp, hc, hf, -⟩ := h
  rw [sendNextChunk, if_pos (Or.inl hp), finishSending, if_pos hf, if_neg hp, if_neg hc]

theorem sendNextChunk_selfReference {s : FileDownload} (h : ¬ s.StopsSending) (io : ChunkIo) :
    (s.sendNextChunk io).selfReference = s.selfReference := by
  have hturn := turn_sendNextChunk s io
  generalize s.sendNextChunk io = s' at hturn ⊢
  cases hturn with
  | stops hp hc hf =>
    rcases hs : s.stopping with _ | _
    · exact absurd ⟨hp, hc, hf, hs⟩ h
    · rw [stop_stopped hs]
  | _ => rfl

theorem onChunkAcknowledged_stops {s : FileDownload} {n : ℕ} (h : s.StopsAtAck n) :
    s.onChunkAcknowledged n =
      { s with
        bytesInFlight := s.bytesInFlight - n
        waitingForAck := false
        ackTimer := s.ackTimer.reset }.stop .clientStop := by
  obtain ⟨hle, hw, hroom, hzero, hc, hend, -⟩ := h
  rw [onChunkAcknowledged]
  simp only
  have hpost : ¬ ((!s.fileStream.eof) = true ∧ s.state = .inProgress) := by
    intro hpost
    simp [(hend hpost.2).1] at hpost
  have hdone : ¬ (s.state = .inProgress ∧ s.bytesTransferred ≥ s.fileSize) := by
    intro hdone
    have hshort := (hend hdone.1).2
    omega
  rw [if_pos hle, if_pos ⟨hw, hroom⟩, if_neg hpost, if_pos hzero, if_neg hdone, if_pos hc]

theorem onChunkAcknowledged_selfReference {s : FileDownload} {n : ℕ} (h : ¬ s.StopsAtAck n) :
    (s.onChunkAcknowledged n).selfReference = s.selfReference := by
  rw [onChunkAcknowledged]
  simp only
  split_ifs with hle hw hpost hzero hdone hc
  · rfl
  · rfl
  · rcases hs : s.stopping with _ | _
    · refine absurd ⟨hle, hw.1, hw.2, hzero, hc, fun hp => ⟨?_, ?_⟩, hs⟩ h
      · by_contra heof
        exact hpost ⟨by simpa using heof, hp⟩
      · by_contra hshort
        exact hdone ⟨hp, by omega⟩
    · rw [stop_stopped rfl]
  all_goals rfl

/-- **`stopCall` finds every stop**: the event is that call. -/
theorem step_of_stopCall {s t : FileDownload} {e : DownloadEvent} {reason : StopReason}
    (h : s.stopCall e = some (t, reason)) : t.stopping = false ∧ step s e = t.stop reason := by
  cases e with
  | posted io =>
    rw [stopCall] at h
    split_ifs at h with hstops
    cases h
    rw [step, if_neg hstops.1]
    exact ⟨hstops.2.2.2.2, sendNextChunk_stops hstops.2 io⟩
  | expired timer => cases h
  | ackTimeout =>
    rw [stopCall] at h
    rw [step]
    rcases hn : s.ackTimer.next with _ | ⟨a, timer⟩ <;> rw [hn] at h
    · cases h
    · simp only at h ⊢
      split_ifs at h with hstops
      cases h
      rw [onAckTimeout, if_pos ⟨hstops.1, hstops.2.1⟩]
      exact ⟨by simpa using hstops.2.2, rfl⟩
  | rateLimit io =>
    rw [stopCall] at h
    rw [step]
    rcases hn : s.rateLimitTimer.next with _ | ⟨a, timer⟩ <;> rw [hn] at h
    · cases h
    · simp only at h ⊢
      split_ifs at h with hstops
      cases h
      exact ⟨hstops.2.2.2, sendNextChunk_stops hstops io⟩
  | completionTimeout =>
    rw [stopCall] at h
    rw [step]
    rcases hn : s.completionTimer.next with _ | ⟨a, timer⟩ <;> rw [hn] at h
    · cases h
    · simp only at h ⊢
      split_ifs at h with hstops
      cases h
      rw [onCompletionTimeout, if_pos hstops.1]
      exact ⟨by simpa using hstops.2, rfl⟩
  | input v =>
    rw [stopCall] at h
    rw [step, handleInput]
    rcases hn : s.ackBytes v with _ | n <;> rw [hn] at h
    · cases h
    · simp only at h ⊢
      split_ifs at h with hstops
      cases h
      exact ⟨hstops.2.2.2.2.2.2, onChunkAcknowledged_stops hstops⟩
  | stop reason' =>
    rw [stopCall] at h
    split_ifs at h with hs
    cases h
    exact ⟨by simpa using hs, rfl⟩

theorem selfReference_of_stopCall {s : FileDownload} {e : DownloadEvent} (h : s.stopCall e = none) :
    (step s e).selfReference = s.selfReference := by
  cases e with
  | posted io =>
    by_cases hnone : s.posted = 0
    · rw [step, if_pos hnone]
    · rw [stopCall] at h
      rw [step, if_neg hnone]
      split_ifs at h with hstops
      exact sendNextChunk_selfReference (fun hs => hstops ⟨hnone, hs⟩) io
  | expired timer => cases timer <;> rfl
  | ackTimeout =>
    rw [stopCall] at h
    rw [step]
    rcases hn : s.ackTimer.next with _ | ⟨a, timer⟩
    · rfl
    · rw [hn] at h
      simp only [onAckTimeout] at h ⊢
      split_ifs with hw
      · rcases hs : s.stopping with _ | _
        · rw [if_pos ⟨hw.1, hw.2, by simp [hs]⟩] at h
          cases h
        · rw [stop_stopped rfl]
      · rfl
  | rateLimit io =>
    rw [stopCall] at h
    rw [step]
    rcases hn : s.rateLimitTimer.next with _ | ⟨a, timer⟩
    · rfl
    · rw [hn] at h
      simp only at h ⊢
      split_ifs at h with hstops
      exact sendNextChunk_selfReference hstops io
  | completionTimeout =>
    rw [stopCall] at h
    rw [step]
    rcases hn : s.completionTimer.next with _ | ⟨a, timer⟩
    · rfl
    · rw [hn] at h
      simp only [onCompletionTimeout] at h ⊢
      split_ifs with hself
      · rcases hs : s.stopping with _ | _
        · rw [if_pos ⟨hself, by simp [hs]⟩] at h
          cases h
        · rw [stop_stopped rfl]
      · rfl
  | input v =>
    rw [stopCall] at h
    rw [step, handleInput]
    rcases hn : s.ackBytes v with _ | n
    · rfl
    · rw [hn] at h
      simp only at h ⊢
      split_ifs at h with hstops
      exact onChunkAcknowledged_selfReference hstops
  | stop reason =>
    rw [stopCall] at h
    split_ifs at h with hs
    rw [step, stop_stopped hs]

/-! ### As owned code -/

def pending (s : FileDownload) : ℕ :=
  s.posted + s.ackTimer.due.length + s.rateLimitTimer.due.length + s.completionTimer.due.length

def queued (s : FileDownload) : DownloadEvent → Bool
  | .posted _ => s.posted ≠ 0
  | .ackTimeout => s.ackTimer.due ≠ []
  | .rateLimit _ => s.rateLimitTimer.due ≠ []
  | .completionTimeout => s.completionTimer.due ≠ []
  | .expired _ | .input _ | .stop _ => false

/-- the manager calls `handle_input` and `stop` -/
def callerOf : DownloadEvent → Caller
  | .input _ | .stop _ => .lock
  | .posted _ | .ackTimeout | .rateLimit _ | .completionTimeout => .handler
  | .expired _ => .clock

theorem queued_pos {s : FileDownload} {e : DownloadEvent} (h : s.queued e = true) : 0 < s.pending := by
  rw [pending]
  cases e with
  | posted io =>
    have hpos : s.posted ≠ 0 := by simpa [queued] using h
    omega
  | ackTimeout =>
    have hpos := List.length_pos_iff.2 (show s.ackTimer.due ≠ [] by simpa [queued] using h)
    omega
  | rateLimit io =>
    have hpos := List.length_pos_iff.2 (show s.rateLimitTimer.due ≠ [] by simpa [queued] using h)
    omega
  | completionTimeout =>
    have hpos := List.length_pos_iff.2 (show s.completionTimer.due ≠ [] by simpa [queued] using h)
    omega
  | _ => cases h

/-- the fifth statement of `stop` drops the self reference, the sixth closes the file -/
theorem stopStatements_drop (t : FileDownload) (reason : StopReason) :
    ((stopStatements reason).foldl (fun s statement => statement s) t).selfReference = false ∧
      ∃ x ∈ statesBefore (stopStatements reason) t, x.selfReference = false := by
  have hx := mem_statesBefore ((stopStatements reason).take 5) (fun s => { s with fileStream.isOpen := false })
    [fun s => { s with state := s.stopState reason }] t
  exact ⟨rfl, _, hx, rfl⟩

theorem lock_pending (s : FileDownload) (e : DownloadEvent) (hc : callerOf e = .lock) :
    (step s e).pending = s.pending ∨ s.stopCall e = none := by
  rcases h : s.stopCall e with _ | ⟨t, reason⟩
  · exact Or.inr rfl
  · left
    obtain ⟨ht, hstep⟩ := step_of_stopCall h
    have hstop : (t.stop reason).pending = t.pending := by rw [stop, ht]; rfl
    rw [hstep, hstop]
    cases e with
    | input v =>
      rw [stopCall] at h
      rcases hn : s.ackBytes v with _ | n
      · rw [hn] at h
        cases h
      · rw [hn] at h
        simp only at h
        split_ifs at h
        cases h
        rfl
    | stop reason' =>
      rw [stopCall] at h
      split_ifs at h
      cases h
      rfl
    | _ => cases hc

def sessionClass : SessionClass FileDownload FileProbe DownloadEvent where
  start s probe := if s.state = .idle then (s.start probe).2 else s
  step := step
  callerOf := callerOf
  selfReference := selfReference
  pending := pending
  queued := queued
  stopStatements := stopStatements
  stopCall := stopCall
  queued_pos _ _ := queued_pos
  stops s e t reason h := by
    obtain ⟨ht, hstep⟩ := step_of_stopCall h
    rw [hstep, stop_eq_statements ht]
  goesOn _ _ := selfReference_of_stopCall
  stop_drops := stopStatements_drop
  clock s e hc := by
    cases e with
    | expired timer => rfl
    | _ => cases hc
  lock := lock_pending

abbrev code : Code FileDownload (SessionEvent FileProbe DownloadEvent) := sessionClass.code

end FileDownload

/-! ## Uploads -/

namespace FileUpload

def stopStatements (reason : StopReason) : List (FileUpload → FileUpload) :=
  [fun s => { s with stopping := true },
    fun s => { s with receiveTimeoutTimer := s.receiveTimeoutTimer.reset },
    fun s => { s with rateLimitTimer := s.rateLimitTimer.reset },
    fun s => { s with selfReference := false },
    fun s => { s with fileOpen := false },
    fun s => s.stopFor reason]

theorem stop_eq_statements {s : FileUpload} (hs : s.stopping = false) (reason : StopReason) :
    s.stop reason = (stopStatements reason).foldl (fun s statement => statement s) s := by
  rw [stop, hs]
  rfl

theorem stop_stopped {s : FileUpload} (hs : s.stopping = true) (reason : StopReason) : s.stop reason = s := by
  rw [stop, if_pos hs]

/-- the state in which an event calls `stop` for the first time, and the reason -/
def stopCall (s : FileUpload) : UploadEvent → Option (FileUpload × StopReason)
  | .input (.binary data _) io =>
    if !data.isEmpty ∧ s.state = .inProgress ∧ s.fileOpen ∧ !io.written ∧ !s.stopping then
      some ({ s with state := .failed, errorMessage := "Failed to write to file" }, .clientStop)
    else none
  | .receiveTimeout =>
    match s.receiveTimeoutTimer.next with
    | none => none
    | some (_, timer) =>
      if timer.present ∧ !s.stopping then
        some ({ s with
          state := .timedOut
          errorMessage := "Timeout waiting for data"
          receiveTimeoutTimer := timer.reset }, .clientStop)
      else none
  | .stop reason => if s.stopping then none else some (s, reason)
  | .input _ _ | .receiveExpired | .rateLimitExpired | .rateLimit => none

/-- **`stopCall` finds every stop**: the event is that call. -/
theorem step_of_stopCall {s t : FileUpload} {e : UploadEvent} {reason : StopReason}
    (h : s.stopCall e = some (t, reason)) : t.stopping = false ∧ step s e = t.stop reason := by
  cases e with
  | input v io =>
    cases v with
    | binary data subtype =>
      rw [stopCall] at h
      split_ifs at h with hstops
      cases h
      obtain ⟨hdata, hp, hopen, hwritten, hs⟩ := hstops
      refine ⟨by simpa using hs, ?_⟩
      rw [step, handleInput, if_neg (by simpa using hdata), handleUploadChunk, if_neg (by simp [hp, hopen]),
        if_pos hwritten]
    | _ => cases h
  | receiveTimeout =>
    rw [stopCall] at h
    rw [step]
    rcases hn : s.receiveTimeoutTimer.next with _ | ⟨a, timer⟩
    · rw [hn] at h
      cases h
    · rw [hn] at h
      simp only at h ⊢
      split_ifs at h with hstops
      cases h
      rw [onReceiveTimeout, if_pos hstops.1]
      exact ⟨by simpa using hstops.2, rfl⟩
  | stop reason' =>
    rw [stopCall] at h
    split_ifs at h with hs
    cases h
    exact ⟨by simpa using hs, rfl⟩
  | _ => cases h

theorem acknowledge_selfReference (s : FileUpload) (early : Bool) :
    (s.acknowledge early).selfReference = s.selfReference := by
  rw [acknowledge]
  split_ifs
  · rw [sendAck]
    split_ifs <;> rfl
  · rfl

theorem selfReference_of_stopCall {s : FileUpload} {e : UploadEvent} (h : s.stopCall e = none) :
    (step s e).selfReference = s.selfReference := by
  cases e with
  | input v io =>
    cases v with
    | binary data subtype =>
      rw [stopCall] at h
      rw [step, handleInput]
      split_ifs with hdata
      · rfl
      · rw [handleUploadChunk]
        simp only
        split_ifs with hgo hwritten hlast
        · rfl
        · rcases hs : s.stopping with _ | _
          · have hgo : s.state = .inProgress ∧ s.fileOpen = true := by simpa using hgo
            rw [if_pos ⟨by simpa using hdata, hgo.1, hgo.2, hwritten, by simp [hs]⟩] at h
            cases h
          · rw [stop_stopped rfl]
        · exact acknowledge_selfReference _ io.early
        · exact acknowledge_selfReference _ io.early
    | _ => rfl
  | receiveTimeout =>
    rw [stopCall] at h
    rw [step]
    rcases hn : s.receiveTimeoutTimer.next with _ | ⟨a, timer⟩
    · rfl
    · rw [hn] at h
      simp only [onReceiveTimeout] at h ⊢
      split_ifs with hpresent
      · rcases hs : s.stopping with _ | _
        · rw [if_pos ⟨hpresent, by simp [hs]⟩] at h
          cases h
        · rw [stop_stopped rfl]
      · rfl
  | rateLimit =>
    rw [step]
    rcases s.rateLimitTimer.next with _ | ⟨bytes, timer⟩
    · rfl
    · rfl
  | stop reason =>
    rw [stopCall] at h
    split_ifs at h with hs
    rw [step, stop_stopped hs]
  | _ => rfl

/-! ### As owned code -/

def pending (s : FileUpload) : ℕ := s.receiveTimeoutTimer.due.length + s.rateLimitTimer.due.length

def queued (s : FileUpload) : UploadEvent → Bool
  | .receiveTimeout => s.receiveTimeoutTimer.due ≠ []
  | .rateLimit => s.rateLimitTimer.due ≠ []
  | .input _ _ | .receiveExpired | .rateLimitExpired | .stop _ => false

/-- the manager calls `handle_input` and `stop` -/
def callerOf : UploadEvent → Caller
  | .input _ _ | .stop _ => .lock
  | .receiveTimeout | .rateLimit => .handler
  | .receiveExpired | .rateLimitExpired => .clock

theorem queued_pos {s : FileUpload} {e : UploadEvent} (h : s.queued e = true) : 0 < s.pending := by
  rw [pending]
  cases e with
  | receiveTimeout =>
    have hpos := List.length_pos_iff.2 (show s.receiveTimeoutTimer.due ≠ [] by simpa [queued] using h)
    omega
  | rateLimit =>
    have hpos := List.length_pos_iff.2 (show s.rateLimitTimer.due ≠ [] by simpa [queued] using h)
    omega
  | _ => cases h

theorem stopFor_kept (s : FileUpload) (reason : StopReason) :
    (s.stopFor reason).selfReference = s.selfReference ∧ (s.stopFor reason).pending = s.pending := by
  cases reason with
  | serverStop =>
    rw [stopFor]
    split_ifs <;> exact ⟨rfl, rfl⟩
  | clientStop =>
    rw [stopFor]
    split_ifs <;> exact ⟨rfl, rfl⟩
  | disconnected => exact ⟨rfl, rfl⟩

/-- the fourth statement of `stop` drops the self reference, the fifth closes the file -/
theorem stopStatements_drop (t : FileUpload) (reason : StopReason) :
    ((stopStatements reason).foldl (fun s statement => statement s) t).selfReference = false ∧
      ∃ x ∈ statesBefore (stopStatements reason) t, x.selfReference = false := by
  have hx := mem_statesBefore ((stopStatements reason).take 4) (fun s => { s with fileOpen := false })
    [fun s => s.stopFor reason] t
  exact ⟨(stopFor_kept _ reason).1, _, hx, rfl⟩

theorem lock_pending (s : FileUpload) (e : UploadEvent) (hc : callerOf e = .lock) :
    (step s e).pending = s.pending ∨ s.stopCall e = none := by
  rcases h : s.stopCall e with _ | ⟨t, reason⟩
  · exact Or.inr rfl
  · left
    obtain ⟨ht, hstep⟩ := step_of_stopCall h
    have hstop : (t.stop reason).pending = t.pending := by
      rw [stop, if_neg (by simp [ht])]
      exact (stopFor_kept _ reason).2
    rw [hstep, hstop]
    cases e with
    | input v io =>
      cases v with
      | binary data subtype =>
        rw [stopCall] at h
        split_ifs at h
        cases h
        rfl
      | _ => cases h
    | stop reason' =>
      rw [stopCall] at h
      split_ifs at h
      cases h
      rfl
    | _ => cases hc

def sessionClass : SessionClass FileUpload Bool UploadEvent where
  start s opens := if s.state = .idle then (s.start opens).2 else s
  step := step
  callerOf := callerOf
  selfReference := selfReference
  pending := pending
  queued := queued
  stopStatements := stopStatements
  stopCall := stopCall
  queued_pos _ _ := queued_pos
  stops s e t reason h := by
    obtain ⟨ht, hstep⟩ := step_of_stopCall h
    rw [hstep, stop_eq_statements ht]
  goesOn _ _ := selfReference_of_stopCall
  stop_drops := stopStatements_drop
  clock s e hc := by
    cases e with
    | receiveExpired => rfl
    | rateLimitExpired => rfl
    | _ => cases hc
  lock := lock_pending

abbrev code : Code FileUpload (SessionEvent Bool UploadEvent) := sessionClass.code

end FileUpload

/-! ## Runs -/

/-- **A session is owned whenever its code runs**, and nothing posted or due outlives it, exactly if no handler calls
`stop` after the starting coroutine has ended, and whoever drops the last reference finds nothing posted or due. -/
theorem sessions_owned_iff (config : TransferConfig) :
    (∀ events : List (Event (SessionEvent FileProbe DownloadEvent)),
      (∀ before, before <+: events →
          FileDownload.code.Safe (FileDownload.code.run (create { config := config }) before)) ↔
        Run.Steps FileDownload.code.ownedStep FileDownload.code.Held (create { config := config }) events) ∧
    ∀ events : List (Event (SessionEvent Bool UploadEvent)),
      (∀ before, before <+: events →
          FileUpload.code.Safe (FileUpload.code.run (create { config := config }) before)) ↔
        Run.Steps FileUpload.code.ownedStep FileUpload.code.Held (create { config := config }) events := by
  constructor
  · intro events
    exact Code.safe_iff _ events
  · intro events
    exact Code.safe_iff _ events

/-- **Timeouts stop a session that only owns itself, and a closure outlives one that the server stops.** -/
theorem stopped_unowned :
    (¬ ∀ before, before <+: [.run (.start ⟨true, true, true, 4⟩), .release,
        .run (.event (.posted { rest := some [1, 2, 3, 4] })), .run (.event (.expired .ack)),
        .run (.event .ackTimeout)] →
      FileDownload.code.Safe
        (FileDownload.code.run (create { config := { chunkSize := 4, windowSize := 4 } }) before)) ∧
    (¬ ∀ before, before <+: [.run (.start ⟨true, true, true, 4⟩), .release, .run (.event (.stop .serverStop))] →
      FileDownload.code.Safe (FileDownload.code.run (create { config := {} }) before)) ∧
    ¬ ∀ before, before <+: [.run (.start true), .release, .run (.event .receiveExpired),
        .run (.event .receiveTimeout)] →
      FileUpload.code.Safe (FileUpload.code.run (create { config := {} }) before) := by
  refine ⟨fun h => ?_, fun h => ?_, fun h => ?_⟩
  · exact absurd (h _ List.prefix_rfl).owned (by decide)
  · exact absurd ((h _ List.prefix_rfl).ended (by decide)) (by decide)
  · exact absurd (h _ List.prefix_rfl).owned (by decide)

end Iotmp
