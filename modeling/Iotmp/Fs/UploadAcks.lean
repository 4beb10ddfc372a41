/-
What the ACKs of an upload add up to.

- `AccountsOnce`: the bytes of the ACKs and the bytes received since the last one are the bytes received, so that every
  byte is in one ACK at most; once the last chunk is there, they are all acknowledged.
- `accounts_once`: this holds in every state of a run, and no ACK follows the final one, if every handler of the rate
  limit timer is called while its bytes are the ones received since the last ACK, and before the final one.
Witness: `delayed_ack_counts_once`. Counterexample: `late_firing_counts_twice`.
-/
import Mathlib.Tactic
import Iotmp.Fs.UploadRuns

namespace Iotmp.FileUpload

/-! ## The account -/

def ackedBytes (s : FileUpload) : ℕ := (s.acks.map UploadAck.bytes).sum

structure AccountsOnce (s : FileUpload) : Prop where
  atMost : s.ackedBytes ≤ s.bytesReceived
  /-- what is in no ACK is what came since the last one -/
  once : s.ackedBytes + s.bytesSinceLastAck = s.bytesReceived
  final : s.isLastChunk = true → s.ackedBytes = s.bytesReceived

/-- a delayed ACK is sent with the bytes received since the last one, and before the last chunk -/
def Punctual (s : FileUpload) : UploadEvent → Prop
  | .rateLimit =>
    ∀ bytes t, s.rateLimitTimer.next = some (bytes, t) → bytes = s.bytesSinceLastAck ∧ s.isLastChunk = false
  | _ => True

structure Accounted (s : FileUpload) : Prop where
  once : s.ackedBytes + s.bytesSinceLastAck = s.bytesReceived
  /-- the final ACK was sent, and no chunk is taken any more -/
  final : s.isLastChunk = true → s.bytesSinceLastAck = 0 ∧ s.state ≠ .inProgress

theorem Accounted.accountsOnce {s : FileUpload} (h : s.Accounted) : s.AccountsOnce where
  atMost := by
    have honce := h.once
    omega
  once := h.once
  final hlast := by
    have honce := h.once
    rw [(h.final hlast).1] at honce
    exact honce

/-! ## ACKs -/

theorem ackedBytes_sendAckNow (s : FileUpload) (bytes : ℕ) :
    (s.sendAckNow bytes).ackedBytes = s.ackedBytes + bytes := by
  simp [ackedBytes, sendAckNow]

/-- an ACK that is sent, now or later, leaves the account as it is -/
theorem acknowledge_once (s : FileUpload) (early : Bool) :
    (s.acknowledge early).ackedBytes + (s.acknowledge early).bytesSinceLastAck =
      s.ackedBytes + s.bytesSinceLastAck := by
  rw [acknowledge]
  split_ifs
  · rw [sendAck]
    split_ifs
    · rfl
    · rw [ackedBytes_sendAckNow]
      rfl
  · rfl

theorem acknowledge_frame (s : FileUpload) (early : Bool) :
    (s.acknowledge early).bytesReceived = s.bytesReceived ∧ (s.acknowledge early).config = s.config := by
  rw [acknowledge]
  split_ifs
  · rw [sendAck]
    split_ifs
    · exact ⟨rfl, rfl⟩
    · exact ⟨rfl, rfl⟩
  · exact ⟨rfl, rfl⟩

/-- the final ACK is not delayed -/
theorem acknowledge_final {s : FileUpload} (hlast : s.isLastChunk = true) (early : Bool) :
    s.acknowledge early = s.sendAckNow s.bytesSinceLastAck := by
  rw [acknowledge, if_pos (.inr hlast), hlast, sendAck, if_neg (by simp)]

theorem isLastChunk_congr {s s' : FileUpload} (hreceived : s'.bytesReceived = s.bytesReceived)
    (hconfig : s'.config = s.config) : s'.isLastChunk = s.isLastChunk := by
  rw [isLastChunk, isLastChunk, hreceived, hconfig]

/-! ## One event -/

/-- nothing but the state, the timers and the file -/
structure SameCounts (s s' : FileUpload) : Prop where
  acks : s'.acks = s.acks
  since : s'.bytesSinceLastAck = s.bytesSinceLastAck
  received : s'.bytesReceived = s.bytesReceived
  config : s'.config = s.config

theorem SameCounts.refl (s : FileUpload) : SameCounts s s := ⟨rfl, rfl, rfl, rfl⟩

theorem stop_same (s : FileUpload) (reason : StopReason) : SameCounts s (s.stop reason) := by
  rw [stop]
  split_ifs
  · exact SameCounts.refl s
  · cases reason with
    | serverStop =>
      rw [stopFor]
      split_ifs
      · exact ⟨rfl, rfl, rfl, rfl⟩
      · exact ⟨rfl, rfl, rfl, rfl⟩
    | clientStop =>
      rw [stopFor]
      split_ifs
      · exact ⟨rfl, rfl, rfl, rfl⟩
      · exact ⟨rfl, rfl, rfl, rfl⟩
    | disconnected => exact ⟨rfl, rfl, rfl, rfl⟩

theorem receiveTimeout_same (s : FileUpload) : SameCounts s (step s .receiveTimeout) := by
  rw [FileUpload.step]
  rcases s.receiveTimeoutTimer.next with _ | ⟨a, t⟩
  · exact SameCounts.refl s
  · simp only
    rw [onReceiveTimeout]
    split_ifs
    · have hstop := stop_same { s with
        state := .timedOut
        errorMessage := "Timeout waiting for data"
        receiveTimeoutTimer := t.reset } .clientStop
      exact ⟨hstop.acks, hstop.since, hstop.received, hstop.config⟩
    · exact ⟨rfl, rfl, rfl, rfl⟩

/-- `stop` leaves no session in progress, unless it was called before -/
theorem stop_state (s : FileUpload) (reason : StopReason) (h : s.stopping = true → s.state ≠ .inProgress) :
    (s.stop reason).state ≠ .inProgress := by
  rcases hs : s.stopping with _ | _
  · rcases stop_cases hs reason with ⟨ho, -⟩ | ⟨-, -, hc, -⟩
    · exact ho.1
    · rw [hc]
      decide
  · rw [stop, if_pos hs]
    exact h hs

theorem Accounted.same {s s' : FileUpload} (h : s.Accounted) (hsame : SameCounts s s')
    (hstate : s.state ≠ .inProgress → s'.state ≠ .inProgress) : s'.Accounted := by
  constructor
  · rw [ackedBytes, hsame.acks, hsame.since, hsame.received]
    exact h.once
  · intro hlast
    rw [isLastChunk_congr hsame.received hsame.config] at hlast
    obtain ⟨hzero, hover⟩ := h.final hlast
    exact ⟨hsame.since.trans hzero, hstate hover⟩

theorem Accounted.handleUploadChunk {s : FileUpload} (h : s.Accounted) (data : Bytes) (io : UploadIo) :
    (s.handleUploadChunk data io).Accounted := by
  rw [FileUpload.handleUploadChunk]
  simp only
  split_ifs with hgo hwritten hlast
  · exact h
  · apply h.same
    · have hstop := stop_same { s with state := .failed, errorMessage := "Failed to write to file" } .clientStop
      exact ⟨hstop.acks, hstop.since, hstop.received, hstop.config⟩
    · exact fun _ => (stop_over (by simp [Over]) .clientStop).1
  · -- the last chunk: its ACK is final
    constructor
    · rw [acknowledge_final hlast]
      have honce := h.once
      simp only [ackedBytes, sendAckNow, FileUpload.receive, startReceiveTimeout, List.map_append, List.map_cons,
        List.map_nil, List.sum_append, List.sum_cons, List.sum_nil] at honce ⊢
      omega
    · intro _
      rw [acknowledge_final hlast]
      exact ⟨rfl, by simp⟩
  · obtain ⟨hreceived, hconfig⟩ := acknowledge_frame (s.receive data).startReceiveTimeout io.early
    constructor
    · rw [acknowledge_once, hreceived]
      have honce := h.once
      simp only [ackedBytes, FileUpload.receive, startReceiveTimeout] at honce ⊢
      omega
    · intro hlast'
      rw [isLastChunk_congr hreceived hconfig] at hlast'
      exact absurd hlast' hlast

/-- **One event.** -/
theorem Accounted.step {s : FileUpload} (h : s.Accounted) (hi : s.Inv) (e : UploadEvent) (he : s.Punctual e) :
    (step s e).Accounted := by
  have hrunning : s.stopping = true → s.state ≠ .inProgress := by
    intro hs hstate
    exact absurd (hs.symm.trans (hi.running hstate)) (by decide)
  cases e with
  | input v io =>
    rw [FileUpload.step]
    cases v with
    | binary data subtype =>
      rw [handleInput]
      split_ifs
      · exact h
      · exact h.handleUploadChunk data io
    | _ => exact h
  | receiveExpired => exact h.same ⟨rfl, rfl, rfl, rfl⟩ id
  | rateLimitExpired => exact h.same ⟨rfl, rfl, rfl, rfl⟩ id
  | receiveTimeout =>
    apply h.same (receiveTimeout_same s)
    intro hstate
    rw [FileUpload.step]
    rcases s.receiveTimeoutTimer.next with _ | ⟨a, t⟩
    · exact hstate
    · simp only
      rw [onReceiveTimeout]
      split_ifs
      · exact (stop_over (by simp [Over]) .clientStop).1
      · exact hstate
  | rateLimit =>
    rw [FileUpload.step]
    rcases hn : s.rateLimitTimer.next with _ | ⟨bytes, t⟩
    · exact h
    · obtain ⟨hbytes, hlast⟩ := he bytes t hn
      constructor
      · have hacked := ackedBytes_sendAckNow { s with rateLimitTimer := t } bytes
        simp only
        rw [hacked, hbytes]
        exact h.once
      · intro hlast'
        exact absurd (hlast'.symm.trans hlast) (by decide)
  | stop reason =>
    apply h.same (stop_same s reason)
    exact fun _ => stop_state s reason hrunning

/-- once the last chunk has been received, no ACK is sent -/
theorem acks_final {s : FileUpload} (h : s.Accounted) (hlast : s.isLastChunk = true) (e : UploadEvent)
    (he : s.Punctual e) : (step s e).acks = s.acks ∧ (step s e).isLastChunk = true := by
  have hsame : SameCounts s (step s e) → (step s e).acks = s.acks ∧ (step s e).isLastChunk = true :=
    fun hs => ⟨hs.acks, (isLastChunk_congr hs.received hs.config).trans hlast⟩
  obtain ⟨-, hstate⟩ := h.final hlast
  cases e with
  | input v io =>
    apply hsame
    rcases input_cases (s := s) v io with hs | ⟨hp, -⟩
    · rw [hs]
      exact SameCounts.refl s
    · exact absurd hp hstate
  | receiveExpired => exact hsame ⟨rfl, rfl, rfl, rfl⟩
  | rateLimitExpired => exact hsame ⟨rfl, rfl, rfl, rfl⟩
  | receiveTimeout => exact hsame (receiveTimeout_same s)
  | rateLimit =>
    apply hsame
    rw [FileUpload.step]
    rcases hn : s.rateLimitTimer.next with _ | ⟨bytes, t⟩
    · exact SameCounts.refl s
    · exact absurd ((he bytes t hn).2.symm.trans hlast) (by decide)
  | stop reason => exact hsame (stop_same s reason)

/-! ## Runs -/

theorem started_accounted (config : TransferConfig) : (started config).Accounted := by
  constructor
  · rfl
  · intro hlast
    simp [isLastChunk, started, start, startReceiveTimeout] at hlast
    omega

/-- **Every byte is acknowledged once**, if no delayed ACK is sent with other bytes than those received since the last
one, or after the final one. -/
theorem accounts_once (config : TransferConfig) (events : List UploadEvent)
    (h : Run.Steps step Punctual (started config) events) :
    ((started config).run events).AccountsOnce ∧
      ∀ before after, before ++ after = events → ((started config).run before).isLastChunk = true →
        ((started config).run events).acks = ((started config).run before).acks := by
  have hstep : ∀ s e, (s.Accounted ∧ s.Inv) → s.Punctual e → ((step s e).Accounted ∧ (step s e).Inv) :=
    fun s e hs he => ⟨hs.1.step hs.2 e he, hs.2.step e⟩
  have hstart : (started config).Accounted ∧ (started config).Inv := ⟨started_accounted config, started_inv config⟩
  constructor
  · exact (Run.invariant hstep _ events hstart h).1.accountsOnce
  · rintro before after rfl hlast
    obtain ⟨hbefore, hafter⟩ := (Run.Steps.append_iff _ before after).1 h
    have hmiddle := Run.invariant hstep _ before hstart hbefore
    set t := (started config).run before with ht
    have hkept := Run.invariant (I := fun s => (s.Accounted ∧ s.Inv) ∧ s.isLastChunk = true ∧ s.acks = t.acks)
      (fun s e hs he => by
        obtain ⟨hacks, hlast'⟩ := acks_final hs.1.1 hs.2.1 e he
        exact ⟨hstep s e hs.1 he, hlast', hacks.trans hs.2.2⟩) t after ⟨hmiddle, hlast, rfl⟩ hafter
    rw [run, Run.run_append]
    exact hkept.2.2

/-- the ACK of the first chunk is delayed, and the second chunk is the last one -/
theorem delayed_ack_counts_once :
    let s := (started { expectedSize := 6, chunkSize := 3, maxBandwidthMbps := 1 }).run
      [.input (.binary [1, 2, 3] none) { early := true }, .rateLimitExpired, .rateLimit,
        .input (.binary [4, 5, 6] none) {}]
    s.AccountsOnce := by
  apply And.left
  apply accounts_once
  refine ⟨trivial, trivial, ?_, trivial, trivial⟩
  intro bytes t hnext
  have hbytes : (3 : ℕ) = bytes := congrArg Prod.fst (Option.some.inj hnext)
  rw [← hbytes]
  decide

/-- **A firing that is queued when the next chunk arrives**: the ACK is delayed again, with six bytes, but the three of
the first chunk are acknowledged at once. -/
theorem late_firing_counts_twice :
    ¬ ((started { expectedSize := 300, chunkSize := 3, maxBandwidthMbps := 1 }).run
      [.input (.binary [1, 2, 3] none) { early := true }, .rateLimitExpired,
        .input (.binary [4, 5, 6] none) { early := true }, .rateLimit, .rateLimitExpired,
        .rateLimit]).AccountsOnce := by
  intro h
  exact absurd h.atMost (by decide)

end Iotmp.FileUpload
