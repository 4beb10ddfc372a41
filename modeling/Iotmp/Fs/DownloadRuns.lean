/-
What keeps a download moving.

A session in progress hands one token around: a posted `send_next_chunk`, a wait of the rate-limit timer, or the flag
`waiting_for_ack_` with its timeout (`Live`). `sendNextChunk` passes the token on or completes. An ACK takes the flag
away; unless it posts or completes, the token is lost.

- `never_stuck_iff`: in every state of a run something can advance the session, and once everything is sent and
  acknowledged only `sendNextChunk` is outstanding and completes it, exactly if no ACK takes the token away. The session
  is completed at once when the window empties, exactly if also no ACK overtakes a `sendNextChunk` that is still to find
  the end of the file.
- Counterexample `split_ack_stuck`: 100 KB in two chunks, acknowledged one by one.
-/
import Mathlib.Tactic
import Iotmp.Fs.Download

namespace Iotmp.FileDownload

/-! ## What can advance a session -/

/-- a `send_next_chunk` is posted, or its delay is running -/
def SenderPending (s : FileDownload) : Prop := 0 < s.posted ∨ 0 < s.rateLimitTimer.waits

/-- an event that advances the session by itself is pending -/
def Advancing (s : FileDownload) : Prop :=
  s.SenderPending ∨ (s.waitingForAck = true ∧ s.ackTimer.present = true ∧ 0 < s.ackTimer.waits)

/-- everything has been read, sent and acknowledged -/
def Drained (s : FileDownload) : Prop :=
  s.fileStream.eof = true ∧ s.bytesInFlight = 0 ∧ s.fileSize ≤ s.bytesTransferred

/-- the session has not got stuck; a drained one is about to complete -/
def Moving (s : FileDownload) : Prop :=
  s.state = .inProgress → s.stopping = false →
    s.Advancing ∧ (s.Drained → s.SenderPending ∧ ∀ io, (s.sendNextChunk io).state = .completed)

/-- the session has not got stuck, and it is not drained -/
def Prompt (s : FileDownload) : Prop :=
  s.state = .inProgress → s.stopping = false → s.Advancing ∧ ¬ s.Drained

/-! ## The token -/

/-- a session in progress while no handler runs, but for the token itself -/
structure Live (s : FileDownload) : Prop where
  isOpen : s.fileStream.isOpen = true
  token : s.posted + s.rateLimitTimer.waits + s.waitingForAck.toNat ≤ 1
  timeout : s.waitingForAck = true → s.ackTimer.present = true ∧ 0 < s.ackTimer.waits
  inFlight : s.waitingForAck = true → 0 < s.bytesInFlight ∨ s.config.windowSize = 0
  noWindow : s.config.windowSize = 0 → s.fileStream.eof = false

structure Inv (s : FileDownload) : Prop where
  stopped : s.stopping = true → s.state ≠ .inProgress
  live : s.state = .inProgress → s.Live

theorem inv_of_ne {s : FileDownload} (h : s.state ≠ .inProgress) : s.Inv := ⟨fun _ => h, fun h' => absurd h' h⟩

theorem moving_of_ne {s : FileDownload} (h : s.state ≠ .inProgress) : s.Moving := fun h' => absurd h' h

theorem prompt_of_ne {s : FileDownload} (h : s.state ≠ .inProgress) : s.Prompt := fun h' => absurd h' h

theorem Inv.not_stopping {s : FileDownload} (hi : s.Inv) (h : s.state = .inProgress) : s.stopping = false := by
  rcases hs : s.stopping with _ | _
  · rfl
  · exact absurd h (hi.stopped hs)

theorem Live.advancing_iff {s : FileDownload} (hl : s.Live) :
    s.Advancing ↔ s.SenderPending ∨ s.waitingForAck = true := by
  constructor
  · rintro (h | ⟨h, -⟩)
    · exact Or.inl h
    · exact Or.inr h
  · rintro (h | h)
    · exact Or.inl h
    · exact Or.inr ⟨h, hl.timeout h⟩

/-- a drained session does not wait for ACKs -/
theorem Live.not_waiting {s : FileDownload} (hl : s.Live) (hd : s.Drained) : s.waitingForAck = false := by
  rcases hw : s.waitingForAck with _ | _
  · rfl
  · obtain ⟨heof, hflight, -⟩ := hd
    rcases hl.inFlight hw with h | h
    · omega
    · rw [hl.noWindow h] at heof
      exact absurd heof (by decide)

theorem sendNextChunk_drained {s : FileDownload} (h : s.state = .inProgress) (hd : s.Drained) (io : ChunkIo) :
    (s.sendNextChunk io).state = .completed := by
  simp [sendNextChunk, finishSending, completeAnew, hd.1, hd.2.1, h]

theorem Live.moving_iff {s : FileDownload} (hl : s.Live) (h : s.state = .inProgress) (hs : s.stopping = false) :
    s.Moving ↔ s.SenderPending ∨ s.waitingForAck = true := by
  rw [← hl.advancing_iff]
  constructor
  · intro hm
    exact (hm h hs).1
  · intro ha _ _
    refine ⟨ha, fun hd => ⟨?_, sendNextChunk_drained h hd⟩⟩
    rcases hl.advancing_iff.1 ha with hp | hw
    · exact hp
    · rw [hl.not_waiting hd] at hw
      exact absurd hw (by decide)

theorem Live.prompt_iff {s : FileDownload} (hl : s.Live) (h : s.state = .inProgress) (hs : s.stopping = false) :
    s.Prompt ↔ s.Moving ∧ ¬ s.Drained := by
  rw [hl.moving_iff h hs, ← hl.advancing_iff]
  constructor
  · intro hp
    exact hp h hs
  · intro hp _ _
    exact hp

/-! ## stop -/

theorem stop_state_ne {s : FileDownload} (hi : s.stopping = true → s.state ≠ .inProgress) (reason : StopReason) :
    (s.stop reason).state ≠ .inProgress := by
  rw [stop]
  split_ifs with hs
  · exact hi hs
  · show s.stopState reason ≠ .inProgress
    cases reason with
    | serverStop => rw [stopState]; split_ifs <;> decide
    | clientStop =>
      rw [stopState]
      split_ifs with h
      · rcases h with h | h <;> rw [h] <;> decide
      · decide
    | disconnected => simp [stopState]

/-! ## sendNextChunk -/

/-- a session in progress whose token the running handler holds -/
structure Ready (s : FileDownload) : Prop where
  notStopping : s.stopping = false
  isOpen : s.fileStream.isOpen = true
  posted : s.posted = 0
  delay : s.rateLimitTimer.waits = 0
  waiting : s.waitingForAck = false
  noWindow : s.config.windowSize = 0 → s.fileStream.eof = false

theorem Ready.awaitAck {s : FileDownload} (hr : s.Ready) (hf : 0 < s.bytesInFlight ∨ s.config.windowSize = 0) :
    s.awaitAck.Live where
  isOpen := hr.isOpen
  token := by
    show s.posted + s.rateLimitTimer.waits + 1 ≤ 1
    rw [hr.posted, hr.delay]
  timeout _ := ⟨rfl, by simp [FileDownload.awaitAck, startAckTimeout]⟩
  inFlight _ := hf
  noWindow := hr.noWindow

theorem awaitAck_not_drained {s : FileDownload} (hr : s.Ready) (hf : 0 < s.bytesInFlight ∨ s.config.windowSize = 0) :
    ¬ s.awaitAck.Drained := by
  rintro ⟨heof, hflight, -⟩
  change s.fileStream.eof = true at heof
  change s.bytesInFlight = 0 at hflight
  rcases hf with h | h
  · omega
  · rw [hr.noWindow h] at heof
    exact absurd heof (by decide)

/-- what `sendNextChunk` leaves behind, if the session is still in progress then -/
def Passed (s : FileDownload) : Prop :=
  s.state = .inProgress → s.stopping = false ∧ s.Live ∧ (s.SenderPending ∨ s.waitingForAck = true) ∧ ¬ s.Drained

theorem passed_awaitAck {s : FileDownload} (hr : s.Ready) (hf : 0 < s.bytesInFlight ∨ s.config.windowSize = 0) :
    s.awaitAck.Passed :=
  fun _ => ⟨hr.notStopping, hr.awaitAck hf, Or.inr rfl, awaitAck_not_drained hr hf⟩

theorem passed_of_ne {s : FileDownload} (h : s.state ≠ .inProgress) : s.Passed := fun h' => absurd h' h

theorem passed_finishSending {s : FileDownload} (hr : s.state = .inProgress → s.Ready) : s.finishSending.Passed := by
  rw [finishSending]
  split_ifs with hf h hc
  · exact passed_of_ne (by simp [completeAnew])
  · exact passed_of_ne h
  · exact passed_of_ne (stop_state_ne (fun _ => h) _)
  · intro h
    exact passed_awaitAck (hr h) (Or.inl (Nat.pos_of_ne_zero hf)) h

/-- with bytes in flight a session is not drained, whatever it waits for -/
theorem passed_continueSending {s : FileDownload} (hr : s.Ready) (hf : 0 < s.bytesInFlight) (io : ChunkIo) :
    (s.continueSending io).Passed := by
  have hnot : ¬ s.waitingForAck = true := by simp [hr.waiting]
  rw [continueSending]
  split_ifs with hroom hdelay
  · -- the rate limit asks for a delay
    intro _
    refine ⟨hr.notStopping, ⟨hr.isOpen, ?_, fun h => absurd h hnot, fun h => absurd h hnot, hr.noWindow⟩,
      Or.inl (Or.inr ?_), ?_⟩
    · have hdue : s.rateLimitTimer.due.length ≤ s.rateLimitTimer.waits := Timer.due_le_waits _
      have hdelay := hr.delay
      simp only [Timer.waits_start, hr.posted, hr.waiting, Bool.toNat_false]
      omega
    · simp
    · rintro ⟨-, hflight, -⟩
      exact hf.ne' hflight
  · -- the next chunk is posted
    intro _
    refine ⟨hr.notStopping, ⟨hr.isOpen, ?_, fun h => absurd h hnot, fun h => absurd h hnot, hr.noWindow⟩,
      Or.inl (Or.inl (Nat.succ_pos _)), ?_⟩
    · simp [hr.posted, hr.delay, hr.waiting]
    · rintro ⟨-, hflight, -⟩
      exact hf.ne' hflight
  · exact passed_awaitAck hr (Or.inl hf)

theorem passed_endOfFile {s : FileDownload} (hr : s.Ready) : s.endOfFile.Passed := by
  rw [endOfFile]
  split_ifs with hf h
  · exact passed_of_ne (by simp [complete])
  · exact passed_of_ne h
  · exact passed_awaitAck hr (Or.inl (Nat.pos_of_ne_zero hf))

theorem read_isOpen (f : InputFile) (rest : Option Bytes) (n : ℕ) : (f.read rest n).2.isOpen = f.isOpen := by
  unfold InputFile.read
  split_ifs
  · rfl
  · rcases rest with _ | rest <;> rfl

/-- **`sendNextChunk` passes the token on, or the session is over.** -/
theorem passed_sendNextChunk {s : FileDownload} (hr : s.state = .inProgress → s.Ready) (io : ChunkIo) :
    (s.sendNextChunk io).Passed := by
  rw [sendNextChunk]
  simp only
  split_ifs with hend hfull hread
  · exact passed_finishSending hr
  · rcases Nat.eq_zero_or_pos s.config.windowSize with hz | hz
    · intro h
      exact passed_awaitAck (hr h) (Or.inr hz) h
    · intro h
      exact passed_awaitAck (hr h) (Or.inl (by omega)) h
  all_goals
    -- the read leaves the file open and the token where it was
    have hp : s.state = .inProgress := by
      by_contra h
      exact hend (Or.inl h)
    have hready : { s with fileStream := (s.fileStream.read io.rest s.config.chunkSize).2 }.Ready := by
      have hr := hr hp
      refine ⟨hr.notStopping, (read_isOpen _ _ _).trans hr.isOpen, hr.posted, hr.delay, hr.waiting, fun hz => ?_⟩
      simp only at hz
      omega
  · apply passed_continueSending
    · exact ⟨hready.notStopping, hready.isOpen, hready.posted, hready.delay, hready.waiting, hready.noWindow⟩
    · exact lt_of_lt_of_le hread (Nat.le_add_left _ _)
  · exact passed_endOfFile hready

theorem Passed.inv {s : FileDownload} (hp : s.Passed) : s.Inv := by
  refine ⟨fun hs h => ?_, fun h => (hp h).2.1⟩
  exact absurd ((hp h).1.symm.trans hs) (by decide)

theorem Passed.moving {s : FileDownload} (hp : s.Passed) : s.Moving := by
  intro h hs
  obtain ⟨-, hl, ha, -⟩ := hp h
  exact (hl.moving_iff h hs).2 ha h hs

theorem Passed.prompt {s : FileDownload} (hp : s.Passed) : s.Prompt := by
  intro h hs
  obtain ⟨-, hl, ha, hd⟩ := hp h
  exact ⟨hl.advancing_iff.2 ha, hd⟩

/-! ## Acknowledgements -/

/-- the effect of an ACK for `n` bytes on a session in progress -/
inductive Acknowledged (s : FileDownload) (n : ℕ) : FileDownload → Prop
  | refused (h : s.bytesInFlight < n) : Acknowledged s n s
  | counted (h : n ≤ s.bytesInFlight)
      (hw : s.waitingForAck = false ∨ s.config.windowSize ≤ s.bytesInFlight - n) :
      Acknowledged s n { s with bytesInFlight := s.bytesInFlight - n }
  | resumed (h : n ≤ s.bytesInFlight) (hw : s.waitingForAck = true) (heof : s.fileStream.eof = false) :
      Acknowledged s n
        { s with
          bytesInFlight := s.bytesInFlight - n
          waitingForAck := false
          ackTimer := s.ackTimer.reset
          posted := s.posted + 1 }
  | ended (h : n ≤ s.bytesInFlight) (hw : s.waitingForAck = true) (hn : s.bytesInFlight - n = 0)
      (t : FileDownload) (ht : t.state ≠ .inProgress) : Acknowledged s n t
  | lost (h : n ≤ s.bytesInFlight) (hw : s.waitingForAck = true) (heof : s.fileStream.eof = true)
      (hn : 0 < s.bytesInFlight - n) (hroom : s.bytesInFlight - n < s.config.windowSize) :
      Acknowledged s n
        { s with
          bytesInFlight := s.bytesInFlight - n
          waitingForAck := false
          ackTimer := s.ackTimer.reset }

theorem onChunkAcknowledged_cases {s : FileDownload} (h : s.state = .inProgress) (hs : s.stopping = false) (n : ℕ) :
    s.Acknowledged n (s.onChunkAcknowledged n) := by
  rw [onChunkAcknowledged]
  simp only
  split_ifs with hle hwait heof hzero hsent hstate
  · exact .resumed hle hwait.1 (by simpa using heof.1)
  · exact .ended hle hwait.1 hzero _ (by simp [complete])
  · apply Acknowledged.ended hle hwait.1 hzero
    apply stop_state_ne
    intro hstop
    exact absurd (hs.symm.trans hstop) (by decide)
  · exact absurd (show s.state = .completed by simpa using hstate) (by rw [h]; decide)
  · apply Acknowledged.lost hle hwait.1 ?_ (Nat.pos_of_ne_zero hzero) hwait.2
    rcases he : s.fileStream.eof with _ | _
    · exact absurd ⟨by simp [he], h⟩ heof
    · rfl
  · apply Acknowledged.counted hle
    rcases hw : s.waitingForAck with _ | _
    · exact Or.inl rfl
    · exact Or.inr (Nat.le_of_not_lt fun hlt => hwait ⟨hw, hlt⟩)
  · exact .refused (Nat.lt_of_not_le hle)

/-- an ACK counts for a session in progress: its bytes, if they are in flight -/
def accepts (s : FileDownload) (v : Json) (n : ℕ) : Prop :=
  s.state = .inProgress ∧ s.ackBytes v = some n ∧ n ≤ s.bytesInFlight

/-- no ACK that ends a wait at the end of the file leaves bytes in flight -/
def KeepsToken (s : FileDownload) : DownloadEvent → Prop
  | .input v => ∀ n, s.accepts v n → s.waitingForAck = true → s.fileStream.eof = true →
      s.bytesInFlight - n = 0 ∨ s.config.windowSize ≤ s.bytesInFlight - n
  | _ => True

/-- no ACK for the last bytes comes before the `sendNextChunk` that finds the end of the file -/
def InOrder (s : FileDownload) : DownloadEvent → Prop
  | .input v => ∀ n, s.accepts v n → s.fileStream.eof = true → s.bytesInFlight - n = 0 →
      s.fileSize ≤ s.bytesTransferred → s.waitingForAck = true
  | _ => True

/-! ## One event -/

/-- nothing that matters to the token or to being drained differs -/
structure Similar (s t : FileDownload) : Prop where
  state : t.state = s.state
  stopping : t.stopping = s.stopping
  config : t.config = s.config
  fileStream : t.fileStream = s.fileStream
  fileSize : t.fileSize = s.fileSize
  bytesTransferred : t.bytesTransferred = s.bytesTransferred
  bytesInFlight : t.bytesInFlight = s.bytesInFlight
  waitingForAck : t.waitingForAck = s.waitingForAck
  posted : t.posted = s.posted
  delay : t.rateLimitTimer.waits = s.rateLimitTimer.waits
  timeout : s.state = .inProgress → s.waitingForAck = true →
    t.ackTimer.present = s.ackTimer.present ∧ t.ackTimer.waits = s.ackTimer.waits

theorem Similar.refl (s : FileDownload) : Similar s s :=
  ⟨rfl, rfl, rfl, rfl, rfl, rfl, rfl, rfl, rfl, rfl, fun _ _ => ⟨rfl, rfl⟩⟩

theorem Similar.inv {s t : FileDownload} (h : Similar s t) (hi : s.Inv) : t.Inv := by
  refine ⟨fun hs => ?_, fun hp => ?_⟩
  · rw [h.state]
    exact hi.stopped (h.stopping.symm.trans hs)
  · rw [h.state] at hp
    have hl := hi.live hp
    refine ⟨?_, ?_, fun hw => ?_, fun hw => ?_, ?_⟩
    · rw [h.fileStream]; exact hl.isOpen
    · rw [h.posted, h.delay, h.waitingForAck]; exact hl.token
    · rw [h.waitingForAck] at hw
      rw [(h.timeout hp hw).1, (h.timeout hp hw).2]
      exact hl.timeout hw
    · rw [h.waitingForAck] at hw
      rw [h.bytesInFlight, h.config]
      exact hl.inFlight hw
    · rw [h.fileStream, h.config]; exact hl.noWindow

theorem Similar.senderPending_iff {s t : FileDownload} (h : Similar s t) : t.SenderPending ↔ s.SenderPending := by
  rw [SenderPending, SenderPending, h.posted, h.delay]

theorem Similar.drained_iff {s t : FileDownload} (h : Similar s t) : t.Drained ↔ s.Drained := by
  rw [Drained, Drained, h.fileStream, h.bytesInFlight, h.fileSize, h.bytesTransferred]

theorem Similar.moving {s t : FileDownload} (h : Similar s t) (hi : s.Inv) (hm : s.Moving) : t.Moving := by
  intro hp hs
  have hl := (h.inv hi).live hp
  have hp' := h.state.symm.trans hp
  have hs' := h.stopping.symm.trans hs
  have ha := ((hi.live hp').moving_iff hp' hs').1 hm
  rw [← h.senderPending_iff, ← h.waitingForAck] at ha
  exact (hl.moving_iff hp hs).2 ha hp hs

theorem Similar.prompt {s t : FileDownload} (h : Similar s t) (hi : s.Inv) (hm : s.Prompt) : t.Prompt := by
  intro hp hs
  have hl := (h.inv hi).live hp
  obtain ⟨ha, hd⟩ := hm (h.state.symm.trans hp) (h.stopping.symm.trans hs)
  rw [(hi.live (h.state.symm.trans hp)).advancing_iff, ← h.senderPending_iff, ← h.waitingForAck] at ha
  exact ⟨hl.advancing_iff.2 ha, fun hd' => hd (h.drained_iff.1 hd')⟩

theorem Inv.ready_posted {s : FileDownload} (hi : s.Inv) (hpos : s.posted ≠ 0) (h : s.state = .inProgress) :
    { s with posted := s.posted - 1 }.Ready := by
  have hl := hi.live h
  have htoken := hl.token
  rcases hw : s.waitingForAck with _ | _ <;> simp only [hw, Bool.toNat_false, Bool.toNat_true] at htoken
  · exact ⟨hi.not_stopping h, hl.isOpen, by simp only; omega, by simp only; omega, rfl, hl.noWindow⟩
  · omega

theorem Inv.ready_delay {s : FileDownload} (hi : s.Inv) {x : Unit × Timer Unit} (hx : s.rateLimitTimer.next = some x)
    (h : s.state = .inProgress) : { s with rateLimitTimer := x.2 }.Ready := by
  have hl := hi.live h
  have htoken := hl.token
  obtain ⟨-, hwaits, -⟩ := Timer.next_eq_some hx
  rcases hw : s.waitingForAck with _ | _ <;> simp only [hw, Bool.toNat_false, Bool.toNat_true] at htoken
  · exact ⟨hi.not_stopping h, hl.isOpen, by simp only; omega, by simp only; omega, rfl, hl.noWindow⟩
  · omega

theorem similar_expire (s : FileDownload) (timer : DownloadTimer) : Similar s (s.expire timer) := by
  cases timer <;> exact ⟨rfl, rfl, rfl, rfl, rfl, rfl, rfl, rfl, rfl, by simp [expire], by simp [expire]⟩

/-- **Every event but an ACK** passes the token on, ends the transfer, or leaves the token alone. -/
theorem step_cases {s : FileDownload} (hi : s.Inv) (e : DownloadEvent) (he : ∀ v, e ≠ .input v) :
    (step s e).Passed ∨ Similar s (step s e) := by
  cases e with
  | posted io =>
    rw [step]
    split_ifs with hpos
    · exact Or.inr (Similar.refl s)
    · exact Or.inl (passed_sendNextChunk (hi.ready_posted hpos) io)
  | expired timer => exact Or.inr (similar_expire s timer)
  | ackTimeout =>
    rw [step]
    rcases hx : s.ackTimer.next with _ | ⟨a, t⟩
    · exact Or.inr (Similar.refl s)
    · obtain ⟨hpresent, -, -⟩ := Timer.next_eq_some hx
      simp only
      rw [onAckTimeout]
      split_ifs with hw
      · exact Or.inl (passed_of_ne (stop_state_ne (fun _ => by simp) _))
      · refine Or.inr ⟨rfl, rfl, rfl, rfl, rfl, rfl, rfl, rfl, rfl, rfl, fun hp hwait => ?_⟩
        -- a session that waits in progress has its timer
        exact absurd ⟨hwait, hpresent.trans ((hi.live hp).timeout hwait).1⟩ hw
  | rateLimit io =>
    rw [step]
    rcases hx : s.rateLimitTimer.next with _ | ⟨a, t⟩
    · exact Or.inr (Similar.refl s)
    · exact Or.inl (passed_sendNextChunk (hi.ready_delay hx) io)
  | completionTimeout =>
    rw [step]
    rcases s.completionTimer.next with _ | ⟨a, t⟩
    · exact Or.inr (Similar.refl s)
    · simp only
      rw [onCompletionTimeout]
      split_ifs with hw
      · exact Or.inl (passed_of_ne (stop_state_ne (fun _ => by simp) _))
      · exact Or.inr ⟨rfl, rfl, rfl, rfl, rfl, rfl, rfl, rfl, rfl, rfl, fun _ _ => ⟨rfl, rfl⟩⟩
  | input v => exact absurd rfl (he v)
  | stop reason => exact Or.inl (passed_of_ne (stop_state_ne hi.stopped _))

/-! ## One ACK -/

theorem onChunkAcknowledged_ne {s : FileDownload} (h : s.state ≠ .inProgress) (n : ℕ) :
    (s.onChunkAcknowledged n).state ≠ .inProgress := by
  rw [onChunkAcknowledged]
  simp only
  split_ifs
  · exact h
  · simp [complete]
  · apply stop_state_ne
    exact fun _ => h
  all_goals exact h

/-- an ACK is not for a session in progress, or it has the effect of its bytes -/
theorem input_cases (s : FileDownload) (v : Json) :
    (((step s (.input v)).Passed ∨ Similar s (step s (.input v))) ∧ ∀ n, ¬ s.accepts v n) ∨
      ∃ n, s.state = .inProgress ∧ s.ackBytes v = some n ∧ step s (.input v) = s.onChunkAcknowledged n := by
  rw [step, handleInput]
  rcases hn : s.ackBytes v with _ | n
  · refine Or.inl ⟨Or.inr (Similar.refl s), fun n h => ?_⟩
    exact absurd (hn.symm.trans h.2.1) (by simp)
  · by_cases h : s.state = .inProgress
    · exact Or.inr ⟨n, h, rfl, rfl⟩
    · exact Or.inl ⟨Or.inl (passed_of_ne (onChunkAcknowledged_ne h n)), fun n h' => h h'.1⟩

theorem Acknowledged.inv {s t : FileDownload} {n : ℕ} (h : s.Acknowledged n t) (hi : s.Inv)
    (hp : s.state = .inProgress) : t.Inv := by
  have hl := hi.live hp
  have htoken := hl.token
  have hns := hi.not_stopping hp
  cases h with
  | refused _ => exact hi
  | counted hle hw =>
    refine ⟨hi.stopped, fun _ => ⟨hl.isOpen, hl.token, hl.timeout, fun hw' => ?_, hl.noWindow⟩⟩
    rcases hw with hw | hw
    · exact absurd (hw.symm.trans hw') (by decide)
    · simp only
      omega
  | resumed hle hw heof =>
    rw [hw, Bool.toNat_true] at htoken
    refine ⟨fun hs => absurd (hns.symm.trans hs) (by decide), fun _ => ?_⟩
    refine ⟨hl.isOpen, ?_, fun h => absurd h (by simp), fun h => absurd h (by simp), hl.noWindow⟩
    simp only [Bool.toNat_false]
    omega
  | ended hle hw hn t ht => exact inv_of_ne ht
  | lost hle hw heof hn hroom =>
    rw [hw, Bool.toNat_true] at htoken
    refine ⟨fun hs => absurd (hns.symm.trans hs) (by decide), fun _ => ?_⟩
    refine ⟨hl.isOpen, ?_, fun h => absurd h (by simp), fun h => absurd h (by simp), hl.noWindow⟩
    simp only [Bool.toNat_false]
    omega

theorem Inv.step {s : FileDownload} (hi : s.Inv) (e : DownloadEvent) : (step s e).Inv := by
  by_cases he : ∃ v, e = .input v
  · obtain ⟨v, rfl⟩ := he
    rcases s.input_cases v with ⟨hp | hs, -⟩ | ⟨n, hp, -, hstep⟩
    · exact hp.inv
    · exact hs.inv hi
    · rw [hstep]
      exact (onChunkAcknowledged_cases hp (hi.not_stopping hp) n).inv hi hp
  · rcases step_cases hi e fun v hv => he ⟨v, hv⟩ with hp | hs
    · exact hp.inv
    · exact hs.inv hi

/-- whether an ACK for `n` bytes takes the token away -/
theorem Acknowledged.moving_iff {s t : FileDownload} {n : ℕ} (h : s.Acknowledged n t) (hi : s.Inv)
    (hp : s.state = .inProgress) (hm : s.Moving) :
    t.Moving ↔ (n ≤ s.bytesInFlight → s.waitingForAck = true → s.fileStream.eof = true →
      s.bytesInFlight - n = 0 ∨ s.config.windowSize ≤ s.bytesInFlight - n) := by
  have hl := hi.live hp
  have hns := hi.not_stopping hp
  have ht := h.inv hi hp
  have ha := (hl.moving_iff hp hns).1 hm
  cases h with
  | refused hlt => exact iff_of_true hm fun hle => by omega
  | counted hle hw =>
    refine iff_of_true (((ht.live hp).moving_iff hp hns).2 ha) fun _ hwait _ => ?_
    rcases hw with hw | hw
    · exact absurd (hw.symm.trans hwait) (by decide)
    · exact Or.inr hw
  | resumed hle hw heof =>
    refine iff_of_true (((ht.live hp).moving_iff hp hns).2 (Or.inl (Or.inl (Nat.succ_pos _)))) fun _ _ h => ?_
    exact absurd (heof.symm.trans h) (by decide)
  | ended hle hw hn t htne => exact iff_of_true (moving_of_ne htne) fun _ _ _ => Or.inl hn
  | lost hle hw heof hn hroom =>
    have htoken := hl.token
    rw [hw, Bool.toNat_true] at htoken
    apply iff_of_false
    · intro hm'
      rcases ((ht.live hp).moving_iff hp hns).1 hm' with (h | h) | h
      · simp only at h
        omega
      · simp only at h
        omega
      · exact absurd h (by simp)
    · intro h
      rcases h hle hw heof with h | h <;> omega

/-- **A session keeps moving over one event exactly if the event is no ACK that takes the token away.** -/
theorem moving_step_iff {s : FileDownload} (hi : s.Inv) (hm : s.Moving) (e : DownloadEvent) :
    (step s e).Moving ↔ s.KeepsToken e := by
  by_cases he : ∃ v, e = .input v
  · obtain ⟨v, rfl⟩ := he
    rcases s.input_cases v with ⟨hp | hs, hno⟩ | ⟨n, hp, hn, hstep⟩
    · exact iff_of_true hp.moving fun n hn => absurd hn (hno n)
    · exact iff_of_true (hs.moving hi hm) fun n hn => absurd hn (hno n)
    · rw [hstep, (onChunkAcknowledged_cases hp (hi.not_stopping hp) n).moving_iff hi hp hm]
      constructor
      · rintro h n' ⟨-, hn', hle⟩
        obtain rfl : n = n' := Option.some.inj (hn.symm.trans hn')
        exact h hle
      · intro h hle
        exact h n ⟨hp, hn, hle⟩
  · have hk : s.KeepsToken e := by
      cases e with
      | input v => exact absurd ⟨v, rfl⟩ he
      | _ => trivial
    rcases step_cases hi e fun v hv => he ⟨v, hv⟩ with hp | hs
    · exact iff_of_true hp.moving hk
    · exact iff_of_true (hs.moving hi hm) hk

/-- whether an ACK for `n` bytes empties the window of a session that does not wait -/
theorem Acknowledged.drained_iff {s t : FileDownload} {n : ℕ} (h : s.Acknowledged n t) (hl : s.Live)
    (hp : s.state = .inProgress) (hd : ¬ s.Drained) :
    (t.state = .inProgress → ¬ t.Drained) ↔ (n ≤ s.bytesInFlight → s.fileStream.eof = true →
      s.bytesInFlight - n = 0 → s.fileSize ≤ s.bytesTransferred → s.waitingForAck = true) := by
  cases h with
  | refused hlt => exact iff_of_true (fun _ => hd) fun hle => by omega
  | counted hle hw =>
    constructor
    · intro h _ heof hn hsent
      exact absurd ⟨heof, hn, hsent⟩ (h hp)
    · rintro h - ⟨heof, hn, hsent⟩
      rcases hw with hw | hw
      · exact absurd (hw.symm.trans (h hle heof hn hsent)) (by decide)
      · -- without a window nothing was ever read
        have hzero : s.config.windowSize = 0 := Nat.le_zero.1 (hn ▸ hw)
        exact absurd ((hl.noWindow hzero).symm.trans heof) (by decide)
  | resumed hle hw heof =>
    refine iff_of_true ?_ fun _ _ _ _ => hw
    rintro - ⟨h, -⟩
    exact absurd (heof.symm.trans h) (by decide)
  | ended hle hw hn t htne => exact iff_of_true (fun h => absurd h htne) fun _ _ _ _ => hw
  | lost hle hw heof hn hroom =>
    refine iff_of_true ?_ fun _ _ _ _ => hw
    rintro - ⟨-, h, -⟩
    simp only at h
    omega

/-- **A session is not drained in progress after an event exactly if the event is also no ACK that comes too soon.** -/
theorem prompt_step_iff {s : FileDownload} (hi : s.Inv) (hm : s.Prompt) (e : DownloadEvent) :
    (step s e).Prompt ↔ s.KeepsToken e ∧ s.InOrder e := by
  by_cases he : ∃ v, e = .input v
  · obtain ⟨v, rfl⟩ := he
    rcases s.input_cases v with ⟨hp | hs, hno⟩ | ⟨n, hp, hn, hstep⟩
    · exact iff_of_true hp.prompt ⟨fun n hn => absurd hn (hno n), fun n hn => absurd hn (hno n)⟩
    · exact iff_of_true (hs.prompt hi hm) ⟨fun n hn => absurd hn (hno n), fun n hn => absurd hn (hno n)⟩
    · have hl := hi.live hp
      have hns := hi.not_stopping hp
      obtain ⟨hmoving, hd⟩ := (hl.prompt_iff hp hns).1 hm
      have hack := onChunkAcknowledged_cases hp hns n
      have hafter := hi.step (.input v)
      rw [hstep] at hafter ⊢
      have hsplit : (s.onChunkAcknowledged n).Prompt ↔ (s.onChunkAcknowledged n).Moving ∧
          ((s.onChunkAcknowledged n).state = .inProgress → ¬ (s.onChunkAcknowledged n).Drained) := by
        by_cases hp' : (s.onChunkAcknowledged n).state = .inProgress
        · rw [(hafter.live hp').prompt_iff hp' (hafter.not_stopping hp')]
          exact and_congr_right fun _ => ⟨fun h _ => h, fun h => h hp'⟩
        · exact iff_of_true (prompt_of_ne hp') ⟨moving_of_ne hp', fun h => absurd h hp'⟩
      rw [hsplit, hack.moving_iff hi hp hmoving, hack.drained_iff hl hp hd]
      constructor
      · rintro ⟨hkeeps, horder⟩
        refine ⟨fun n' h => ?_, fun n' h => ?_⟩ <;> obtain rfl : n = n' := Option.some.inj (hn.symm.trans h.2.1)
        · exact hkeeps h.2.2
        · exact horder h.2.2
      · rintro ⟨hkeeps, horder⟩
        exact ⟨fun hle => hkeeps n ⟨hp, hn, hle⟩, fun hle => horder n ⟨hp, hn, hle⟩⟩
  · have hk : s.KeepsToken e ∧ s.InOrder e := by
      cases e with
      | input v => exact absurd ⟨v, rfl⟩ he
      | _ => exact ⟨trivial, trivial⟩
    rcases step_cases hi e fun v hv => he ⟨v, hv⟩ with hp | hs
    · exact iff_of_true hp.prompt hk
    · exact iff_of_true (hs.prompt hi hm) hk

/-! ## Runs -/

theorem started_passed (config : TransferConfig) (fileSize : ℕ) : (started config fileSize).Passed := by
  intro _
  have hw : ¬ (started config fileSize).waitingForAck = true := by simp [started, start]
  refine ⟨rfl, ⟨rfl, le_rfl, fun h => absurd h hw, fun h => absurd h hw, fun _ => rfl⟩, Or.inl (Or.inl Nat.one_pos), ?_⟩
  rintro ⟨h, -⟩
  exact absurd h (by simp [started, start])

/-- **When a download cannot get stuck.** In every state reached something can advance the session in progress, and once
everything is sent and acknowledged the outstanding `sendNextChunk` completes it, exactly if no ACK that ends a wait at
the end of the file leaves bytes in flight with room in the window. The session in progress is never even drained,
exactly if also no ACK for the last bytes comes before the `sendNextChunk` that finds the end of the file. -/
theorem never_stuck_iff (config : TransferConfig) (fileSize : ℕ) (events : List DownloadEvent) :
    ((∀ es, es <+: events → ((started config fileSize).run es).Moving) ↔
      Run.Steps step KeepsToken (started config fileSize) events) ∧
    ((∀ es, es <+: events → ((started config fileSize).run es).Prompt) ↔
      Run.Steps step (fun s e => s.KeepsToken e ∧ s.InOrder e) (started config fileSize) events) := by
  have h := started_passed config fileSize
  constructor
  · apply Run.always_iff_steps (I := Inv) (P := Moving) (fun s e hi => hi.step e)
    · intro s e hi hm
      exact moving_step_iff hi hm e
    · exact h.inv
    · exact h.moving
  · apply Run.always_iff_steps (I := Inv) (P := Prompt) (fun s e hi => hi.step e)
    · intro s e hi hm
      exact prompt_step_iff hi hm e
    · exact h.inv
    · exact h.prompt

/-! ## Two ACKs for two chunks -/

/-- the JSON of an ACK -/
def ack (n : UInt64) : Json := .object [(text "bytes", .numberUnsigned n)]

theorem ackBytes_ack (s : FileDownload) (n : UInt64) (h : 0 < n) : s.ackBytes (ack n) = some n.toNat := by
  simp [ackBytes, ack, SortedMap.find, Json.getSize, h]

/-- the two chunks of a file, the `sendNextChunk` that finds its end, and the ACK for the first chunk -/
def splitAck (config : TransferConfig) (file : Bytes) (n : UInt64) : List DownloadEvent :=
  [.posted { rest := some file }, .posted { rest := some (file.drop config.chunkSize) }, .posted { rest := some [] },
    .input (ack n)]

/-- a chunk that leaves room in the window, without a bandwidth limit -/
theorem sendNextChunk_posts {s : FileDownload} {rest : Bytes} (chunk : Bytes) (f : InputFile)
    (h : s.state = .inProgress) (hfile : s.fileStream = { isOpen := true }) (hrate : s.config.maxBandwidthMbps = 0)
    (hr : s.fileStream.read (some rest) s.config.chunkSize = (chunk, f)) (hread : 0 < chunk.length)
    (hroom : s.bytesInFlight + chunk.length < s.config.windowSize) :
    s.sendNextChunk { rest := some rest } =
      { s with
        fileStream := f
        payloads := s.payloads ++ [chunk]
        bytesTransferred := s.bytesTransferred + chunk.length
        bytesInFlight := s.bytesInFlight + chunk.length
        posted := s.posted + 1 } := by
  have hopen : ¬ s.bytesInFlight ≥ s.config.windowSize := by omega
  have hgo : ¬ (s.state ≠ .inProgress ∨ !s.fileStream.isOpen ∨ s.fileStream.eof) := by simp [h, hfile]
  rw [sendNextChunk, if_neg hgo, if_neg hopen]
  simp [hr, hread, continueSending, countChunk, hroom, hrate]

/-- a file of more than one and less than two chunks, all of it in the window -/
theorem run_splitAck (config : TransferConfig) (file : Bytes) (n : UInt64) (hrate : config.maxBandwidthMbps = 0)
    (hlow : config.chunkSize < file.length) (hhigh : file.length < 2 * config.chunkSize)
    (hwindow : file.length < config.windowSize) (hn : n.toNat = config.chunkSize) :
    (started config file.length).run (splitAck config file n) =
      { config := config
        fileSize := file.length
        bytesTransferred := file.length
        bytesInFlight := file.length - config.chunkSize
        fileStream := { isOpen := true, eof := true }
        ackTimer := Timer.reset (Timer.start {} ())
        state := .inProgress
        selfReference := true
        payloads := [file.take config.chunkSize, file.drop config.chunkSize] } := by
  have hpos : 0 < n := by
    rw [UInt64.lt_iff_toNat_lt, hn]
    exact Nat.pos_of_ne_zero fun h => by omega
  have hack : ∀ s : FileDownload, s.ackBytes (ack n) = some n.toNat := fun s => ackBytes_ack s n hpos
  have hfirst : (file.take config.chunkSize).length = config.chunkSize := List.length_take_of_le hlow.le
  have hrest : (file.drop config.chunkSize).length = file.length - config.chunkSize := List.length_drop
  have hsecond : (file.drop config.chunkSize).take config.chunkSize = file.drop config.chunkSize :=
    List.take_of_length_le (by omega)
  -- two chunks are sent, the second one ends the file
  have h1 : step (started config file.length) (.posted { rest := some file }) =
      { config := config, fileSize := file.length, bytesTransferred := config.chunkSize,
        bytesInFlight := config.chunkSize, fileStream := { isOpen := true }, state := .inProgress,
        selfReference := true, posted := 1, payloads := [file.take config.chunkSize] } := by
    rw [step, if_neg (by simp [started, start])]
    rw [sendNextChunk_posts (file.take config.chunkSize) { isOpen := true } rfl rfl hrate]
    · simp [started, start, hfirst]
    · simp [started, start, InputFile.read, hlow.le]
    · rw [hfirst]; omega
    · rw [hfirst]
      show 0 + config.chunkSize < config.windowSize
      omega
  have h2 : step (step (started config file.length) (.posted { rest := some file }))
      (.posted { rest := some (file.drop config.chunkSize) }) =
      { config := config, fileSize := file.length, bytesTransferred := file.length,
        bytesInFlight := file.length, fileStream := { isOpen := true, eof := true }, state := .inProgress,
        selfReference := true, posted := 1, payloads := [file.take config.chunkSize, file.drop config.chunkSize] } := by
    rw [h1, step, if_neg (by simp)]
    rw [sendNextChunk_posts (file.drop config.chunkSize) { isOpen := true, eof := true } rfl rfl hrate]
    · simp only [hrest, Nat.add_sub_cancel' hlow.le]
      rfl
    · simp only [InputFile.read, hsecond]
      simp
      omega
    · omega
    · simp only [hrest]
      omega
  -- the end of the file is found, and the ACK ends the wait for good
  have hflight : file.length ≠ 0 := by omega
  have hleft : file.length - config.chunkSize ≠ 0 := by omega
  have hroom : file.length - config.chunkSize < config.windowSize := by omega
  calc (started config file.length).run (splitAck config file n)
      = step (step (step (step (started config file.length) (.posted { rest := some file }))
          (.posted { rest := some (file.drop config.chunkSize) })) (.posted { rest := some [] })) (.input (ack n)) :=
        rfl
    _ = _ := by
        rw [h2]
        simp [step, sendNextChunk, finishSending, awaitAck, startAckTimeout, handleInput, hack, hn, onChunkAcknowledged,
          hflight, hleft, hroom, hlow.le]

/-- **100 KB, acknowledged chunk by chunk.** After the first ACK nothing can advance the session any more, and after the
second everything is sent and acknowledged, but the session is still in progress. -/
theorem split_ack_stuck :
    ∃ file : Bytes, file.length = 100 * 1024 ∧
      let s := (started {} file.length).run (splitAck {} file 65536)
      (s.state = .inProgress ∧ s.stopping = false ∧ ¬ s.Advancing) ∧
        let t := s.run [.input (ack 36864)]
        t.state = .inProgress ∧ t.stopping = false ∧ ¬ t.Advancing ∧ t.Drained := by
  have hall : ∀ n : ℕ, ∃ file : Bytes, file.length = n := fun n => ⟨List.replicate n 0, List.length_replicate⟩
  obtain ⟨file, hfile⟩ := hall (100 * 1024)
  have hs := run_splitAck {} file 65536 rfl (by rw [hfile]; decide) (by rw [hfile]; decide) (by rw [hfile]; decide) rfl
  have hack : ∀ s : FileDownload, s.ackBytes (ack 36864) = some 36864 := fun s => ackBytes_ack s 36864 (by decide)
  have hleft : file.length - ({} : TransferConfig).chunkSize = 36864 := by rw [hfile]; rfl
  refine ⟨file, hfile, ?_⟩
  simp only [hs, hleft]
  constructor
  · simp [Advancing, SenderPending, Timer.waits]
  · simp [run, step, handleInput, hack, onChunkAcknowledged, Advancing, SenderPending, Drained, Timer.waits]

end Iotmp.FileDownload
