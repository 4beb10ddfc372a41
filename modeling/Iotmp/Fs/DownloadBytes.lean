/-
What a download sends, and when it counts as completed.

A session counts every chunk it reads, whether or not `stream_resource` queues it. It becomes COMPLETED at three places
of `send_next_chunk` and `on_chunk_acknowledged`, and `stop` decides once more from the counters: `SERVER_STOP` makes it
COMPLETED if `bytes_transferred_ >= file_size_` and `file_size_ > 0`.

- `Tracked`: a session with the bytes read from its file and the number of bytes acknowledged, which the code does not
  keep. `counts`: how one event moves all counters.
- `truthful_iff`: the payloads are what was read, a session that becomes COMPLETED has sent and got acknowledged the
  whole file, and one that is COMPLETED when the server closes it stays so, exactly if no chunk is refused, no file ends
  early, and `SERVER_STOP` finds neither an empty file completed nor unacknowledged bytes of a whole file.
- Counterexample `completed_wrongly`: a refused chunk, a file that has shrunk, an empty file.
-/
import Mathlib.Tactic
import Iotmp.Fs.DownloadRuns

namespace Iotmp.FileDownload

/-! ## What an event reads and acknowledges -/

/-- the `send_next_chunk` that an event calls, if any -/
def sends (s : FileDownload) : DownloadEvent → Option ChunkIo
  | .posted io => if s.posted = 0 then none else some io
  | .rateLimit io => if s.rateLimitTimer.due = [] then none else some io
  | _ => none

/-- the bytes that `sendNextChunk` reads -/
def chunkRead (s : FileDownload) (io : ChunkIo) : Bytes :=
  if s.state ≠ .inProgress ∨ !s.fileStream.isOpen ∨ s.fileStream.eof then []
  else if s.bytesInFlight ≥ s.config.windowSize then []
  else (s.fileStream.read io.rest s.config.chunkSize).1

def readBy (s : FileDownload) (e : DownloadEvent) : Bytes :=
  match s.sends e with
  | none => []
  | some io => s.chunkRead io

theorem readBy_of_sends {s : FileDownload} {e : DownloadEvent} {io : ChunkIo} (h : s.sends e = some io) :
    s.readBy e = s.chunkRead io := by
  rw [readBy, h]

theorem readBy_of_none {s : FileDownload} {e : DownloadEvent} (h : s.sends e = none) : s.readBy e = [] := by
  rw [readBy, h]

/-- the bytes that an ACK takes out of flight; one for more bytes than are in flight is ignored -/
def ackedBy (s : FileDownload) : DownloadEvent → ℕ
  | .input v =>
    match s.ackBytes v with
    | none => 0
    | some n => if n ≤ s.bytesInFlight then n else 0
  | _ => 0

/-- the sender finds the file closed or at its end, or reads nothing -/
def AtEnd (s : FileDownload) (io : ChunkIo) : Prop :=
  s.fileStream.isOpen = false ∨ s.fileStream.eof = true ∨
    s.bytesInFlight < s.config.windowSize ∧ s.chunkRead io = []

/-- what keeps the counters honest at one event -/
structure Sound (s : FileDownload) (e : DownloadEvent) : Prop where
  queued : ∀ io, s.sends e = some io → s.chunkRead io ≠ [] → io.queued = true
  whole : ∀ io, s.sends e = some io → s.state = .inProgress → s.bytesInFlight = 0 → s.AtEnd io →
    s.fileSize ≤ s.bytesTransferred
  notEmpty : e = .stop .serverStop → s.stopping = false → s.state = .completed → 0 < s.fileSize
  acknowledged : e = .stop .serverStop → s.stopping = false → 0 < s.fileSize → s.fileSize ≤ s.bytesTransferred →
    s.bytesInFlight = 0

/-! ## What an event does -/

theorem chunkRead_atEnd {s : FileDownload} {io : ChunkIo} (h : s.AtEnd io) : s.chunkRead io = [] := by
  rcases h with h | h | ⟨-, h⟩
  · simp [chunkRead, h]
  · simp [chunkRead, h]
  · exact h

/-- the outcomes of `sendNextChunk` -/
inductive Turn (s : FileDownload) (io : ChunkIo) : FileDownload → Prop
  | rests (h : s.state = .completed) : Turn s io s
  | stops (h : s.state ≠ .inProgress) (hc : s.state ≠ .completed) (hf : s.bytesInFlight = 0) :
      Turn s io (s.stop .clientStop)
  | completes (h : s.state = .inProgress) (hf : s.bytesInFlight = 0) (hend : s.AtEnd io) (f : InputFile)
      (t : Timer Unit) : Turn s io { s with fileStream := f, state := .completed, completionTimer := t }
  | awaits (hread : s.chunkRead io = []) (hnot : ¬ (s.state = .inProgress ∧ s.bytesInFlight = 0 ∧ s.AtEnd io))
      (f : InputFile) : Turn s io { s with fileStream := f }.awaitAck
  | sent (h : s.state = .inProgress) (hread : s.chunkRead io ≠ []) (f : InputFile) (w : Bool) (a r : Timer Unit)
      (n : ℕ) :
      Turn s io
        { s with
          fileStream := f
          payloads := if io.queued then s.payloads ++ [s.chunkRead io] else s.payloads
          bytesTransferred := s.bytesTransferred + (s.chunkRead io).length
          bytesInFlight := s.bytesInFlight + (s.chunkRead io).length
          waitingForAck := w
          ackTimer := a
          rateLimitTimer := r
          posted := n }

theorem turn_finishSending {s : FileDownload} {io : ChunkIo}
    (hend : s.state ≠ .inProgress ∨ s.fileStream.isOpen = false ∨ s.fileStream.eof = true) :
    Turn s io s.finishSending := by
  rw [finishSending]
  split_ifs with hf h hc
  · have hatEnd : s.AtEnd io := by
      rcases hend with hne | hopen | heof
      · exact absurd h hne
      · exact Or.inl hopen
      · exact Or.inr (Or.inl heof)
    exact .completes h hf hatEnd s.fileStream (s.completionTimer.start ())
  · exact .rests hc
  · exact .stops h hc hf
  · refine .awaits ?_ (fun hnot => hf hnot.2.1) s.fileStream
    rw [chunkRead, if_pos]
    simpa using hend

theorem turn_continueSending {s t : FileDownload} {io : ChunkIo} (f : InputFile) (h : s.state = .inProgress)
    (hread : s.chunkRead io ≠ []) (ht : t = { s with fileStream := f }.countChunk (s.chunkRead io) io.queued) :
    Turn s io (t.continueSending io) := by
  subst ht
  rw [continueSending]
  split_ifs
  · exact .sent h hread f _ _ _ _
  · exact .sent h hread f _ _ _ _
  · exact .sent h hread f _ _ _ _

/-- **What `sendNextChunk` can do.** -/
theorem turn_sendNextChunk (s : FileDownload) (io : ChunkIo) : Turn s io (s.sendNextChunk io) := by
  rw [sendNextChunk]
  simp only
  split_ifs with hend hfull hread
  · exact turn_finishSending (by simpa using hend)
  all_goals
    have hgo : s.state = .inProgress ∧ s.fileStream.isOpen = true ∧ s.fileStream.eof = false := by simpa using hend
    have hchunk : s.chunkRead io =
        if s.bytesInFlight ≥ s.config.windowSize then [] else (s.fileStream.read io.rest s.config.chunkSize).1 := by
      rw [chunkRead, if_neg hend]
  · rw [if_pos hfull] at hchunk
    refine .awaits hchunk ?_ s.fileStream
    rintro ⟨-, -, hatEnd⟩
    rcases hatEnd with hopen | heof | ⟨hroom, -⟩
    · exact absurd (hopen.symm.trans hgo.2.1) (by decide)
    · exact absurd (heof.symm.trans hgo.2.2) (by decide)
    · omega
  · rw [if_neg hfull] at hchunk
    rw [← hchunk] at hread ⊢
    exact turn_continueSending _ hgo.1 (List.length_pos_iff.1 hread) rfl
  · rw [if_neg hfull] at hchunk
    rw [← hchunk] at hread
    have hnil := List.length_eq_zero_iff.1 (Nat.eq_zero_of_not_pos hread)
    rw [endOfFile]
    split_ifs with hzero hp
    · exact .completes hgo.1 hzero (Or.inr (Or.inr ⟨Nat.lt_of_not_ge hfull, hnil⟩)) _ _
    · exact absurd hgo.1 hp
    · exact .awaits hnil (fun hnot => hzero hnot.2.1) _

/-- the outcomes of an event: nothing but timers, a turn of the sender, an ACK, a timeout that stops, or `stop` -/
inductive Does (s : FileDownload) : DownloadEvent → FileDownload → Prop
  | idle (e : DownloadEvent) (hsends : s.sends e = none) (hacked : s.ackedBy e = 0) (a r c : Timer Unit)
      (ha : a.present = s.ackTimer.present) :
      Does s e { s with ackTimer := a, rateLimitTimer := r, completionTimer := c }
  | turn (e : DownloadEvent) (io : ChunkIo) (hsends : s.sends e = some io) (hacked : s.ackedBy e = 0) (n : ℕ)
      (r : Timer Unit) : Does s e ({ s with posted := n, rateLimitTimer := r }.sendNextChunk io)
  | acked (v : Json) (n : ℕ) (h : s.ackBytes v = some n) : Does s (.input v) (s.onChunkAcknowledged n)
  | timesOut (e : DownloadEvent) (hsends : s.sends e = none) (hacked : s.ackedBy e = 0)
      (h : s.ackTimer.present = true ∨ s.selfReference = true) (message : String) (a c : Timer Unit) :
      Does s e ({ s with
        state := .timedOut
        errorMessage := message
        ackTimer := a
        completionTimer := c }.stop .clientStop)
  | stops (reason : StopReason) : Does s (.stop reason) (s.stop reason)

/-- **What an event can do.** -/
theorem does_step (s : FileDownload) (e : DownloadEvent) : Does s e (step s e) := by
  cases e with
  | posted io =>
    rw [step]
    split_ifs with hnone
    · exact .idle _ (by rw [sends, if_pos hnone]) rfl _ _ _ rfl
    · exact .turn _ io (by rw [sends, if_neg hnone]) rfl _ _
  | expired timer =>
    cases timer with
    | ack => exact .idle _ rfl rfl _ _ _ rfl
    | rateLimit => exact .idle _ rfl rfl _ _ _ rfl
    | completion => exact .idle _ rfl rfl _ _ _ rfl
  | ackTimeout =>
    rw [step]
    rcases hn : s.ackTimer.next with _ | ⟨a, t⟩
    · exact .idle _ rfl rfl _ _ _ rfl
    · have hpresent := (Timer.next_eq_some hn).1
      simp only
      rw [onAckTimeout]
      split_ifs with hw
      · exact .timesOut _ rfl rfl (Or.inl (hpresent.symm.trans hw.2)) _ _ _
      · exact .idle _ rfl rfl _ _ _ hpresent
  | rateLimit io =>
    rw [step, Timer.next]
    rcases hd : s.rateLimitTimer.due with _ | ⟨a, due⟩
    · exact .idle _ (by rw [sends, if_pos hd]) rfl _ _ _ rfl
    · exact .turn _ io (by rw [sends, if_neg (by simp [hd])]) rfl _ _
  | completionTimeout =>
    rw [step]
    rcases s.completionTimer.next with _ | ⟨a, t⟩
    · exact .idle _ rfl rfl _ _ _ rfl
    · simp only
      rw [onCompletionTimeout]
      split_ifs with hself
      · exact Does.timesOut (s := s) .completionTimeout rfl rfl (Or.inr hself) _ _ _
      · exact .idle _ rfl rfl _ _ _ rfl
  | input v =>
    rw [step, handleInput]
    rcases hn : s.ackBytes v with _ | n
    · exact .idle _ rfl (by rw [ackedBy, hn]) _ _ _ rfl
    · exact .acked v n hn
  | stop reason => exact .stops reason

/-! ## How the counters move -/

/-- `read` is read, and queued or not, and `acked` bytes are acknowledged -/
structure Counts (s : FileDownload) (read : Bytes) (queued : Bool) (acked : ℕ) (s' : FileDownload) : Prop where
  transferred : s'.bytesTransferred = s.bytesTransferred + read.length
  inFlight : s'.bytesInFlight + acked = s.bytesInFlight + read.length
  payloads : s'.payloads.flatten = s.payloads.flatten ++ if queued then read else []
  fileSize : s'.fileSize = s.fileSize

theorem Counts.same {s s' : FileDownload} (htransferred : s'.bytesTransferred = s.bytesTransferred)
    (hflight : s'.bytesInFlight = s.bytesInFlight) (hpayloads : s'.payloads = s.payloads)
    (hsize : s'.fileSize = s.fileSize) : Counts s [] true 0 s' :=
  ⟨htransferred, hflight, by simp [hpayloads], hsize⟩

theorem Counts.refl (s : FileDownload) : Counts s [] true 0 s := Counts.same rfl rfl rfl rfl

theorem Counts.trans_same {s t s' : FileDownload} {read : Bytes} {queued : Bool} {acked : ℕ}
    (h : Counts t read queued acked s') (hsame : Counts s [] true 0 t) : Counts s read queued acked s' := by
  refine ⟨?_, ?_, ?_, h.fileSize.trans hsame.fileSize⟩
  · rw [h.transferred, hsame.transferred, List.length_nil, Nat.add_zero]
  · rw [h.inFlight, ← Nat.add_zero t.bytesInFlight, hsame.inFlight, List.length_nil, Nat.add_zero]
  · rw [h.payloads, hsame.payloads, if_pos rfl, List.append_nil]

theorem stop_counts (s : FileDownload) (reason : StopReason) : Counts s [] true 0 (s.stop reason) := by
  rw [stop]
  split_ifs
  · exact Counts.refl s
  · exact Counts.same rfl rfl rfl rfl

theorem sendNextChunk_counts (s : FileDownload) (io : ChunkIo) :
    Counts s (s.chunkRead io) io.queued 0 (s.sendNextChunk io) := by
  have hnone : ∀ s', s.chunkRead io = [] → Counts s [] true 0 s' → Counts s (s.chunkRead io) io.queued 0 s' := by
    intro s' hread h
    rw [hread]
    exact ⟨h.transferred, h.inFlight, by rw [h.payloads]; simp, h.fileSize⟩
  have hturn := turn_sendNextChunk s io
  generalize s.sendNextChunk io = s' at hturn ⊢
  cases hturn with
  | rests h => exact hnone s (by simp [chunkRead, h]) (Counts.refl s)
  | stops h hc hf => exact hnone _ (by simp [chunkRead, h]) (stop_counts s _)
  | completes h hf hend f t => exact hnone _ (chunkRead_atEnd hend) (Counts.same rfl rfl rfl rfl)
  | awaits hread hnot f => exact hnone _ hread (Counts.same rfl rfl rfl rfl)
  | sent h hread f w a r n =>
    refine ⟨rfl, rfl, ?_, rfl⟩
    rcases io.queued with _ | _
    · simp
    · simp

theorem onChunkAcknowledged_counts (s : FileDownload) (n : ℕ) :
    Counts s [] true (if n ≤ s.bytesInFlight then n else 0) (s.onChunkAcknowledged n) := by
  rw [onChunkAcknowledged]
  simp only
  split_ifs with hle
  · exact ⟨rfl, by simp only [List.length_nil]; omega, by simp, rfl⟩
  · exact ⟨rfl, by simp only [complete, List.length_nil]; omega, by simp [complete], rfl⟩
  · obtain ⟨htransferred, hflight, hpayloads, hsize⟩ := stop_counts { s with
      bytesInFlight := s.bytesInFlight - n
      waitingForAck := false
      ackTimer := s.ackTimer.reset } .clientStop
    exact ⟨htransferred, by simp only [List.length_nil] at hflight ⊢; omega, hpayloads, hsize⟩
  · exact ⟨rfl, by simp only [List.length_nil]; omega, by simp, rfl⟩
  · exact ⟨rfl, by simp only [List.length_nil]; omega, by simp, rfl⟩
  · exact ⟨rfl, by simp only [List.length_nil]; omega, by simp, rfl⟩
  · exact Counts.refl s

/-- **One event** reads, sends and acknowledges this and no more. -/
theorem step_counts (s : FileDownload) (e : DownloadEvent) :
    Counts s (s.readBy e) (match s.sends e with | none => true | some io => io.queued) (s.ackedBy e) (step s e) := by
  have hdoes := does_step s e
  generalize step s e = s' at hdoes ⊢
  cases hdoes with
  | idle _ hsends hacked a r c ha =>
    rw [readBy, hsends, hacked]
    exact Counts.same rfl rfl rfl rfl
  | turn _ io hsends hacked n r =>
    rw [readBy, hsends, hacked]
    exact (sendNextChunk_counts { s with posted := n, rateLimitTimer := r } io).trans_same (Counts.same rfl rfl rfl rfl)
  | acked v n h =>
    rw [ackedBy, h]
    exact onChunkAcknowledged_counts s n
  | timesOut _ hsends hacked h message a c =>
    rw [readBy, hsends, hacked]
    exact (stop_counts _ .clientStop).trans_same (Counts.same rfl rfl rfl rfl)
  | stops reason => exact stop_counts s reason

/-! ## Becoming COMPLETED -/

theorem stop_completed_iff {s : FileDownload} (hs : s.stopping = false) (reason : StopReason) :
    (s.stop reason).state = .completed ↔
      reason = .serverStop ∧ s.fileSize ≤ s.bytesTransferred ∧ 0 < s.fileSize := by
  rw [stop, hs]
  show s.stopState reason = .completed ↔ _
  cases reason with
  | serverStop =>
    rw [stopState]
    split_ifs with h
    · simpa using h
    · simpa using h
  | clientStop =>
    rw [stopState]
    split_ifs with h
    · rcases h with h | h <;> simp [h]
    · simp
  | disconnected => simp [stopState]

/-- a `CLIENT_STOP` completes nothing -/
theorem clientStop_ne {s : FileDownload} (h : s.state ≠ .completed) : (s.stop .clientStop).state ≠ .completed := by
  rcases hs : s.stopping with _ | _
  · intro hc
    exact absurd ((stop_completed_iff hs _).1 hc).1 (by decide)
  · rw [stop_stopped hs]
    exact h

/-- **`sendNextChunk` completes** a session in progress with nothing in flight once it finds no more bytes. -/
theorem sendNextChunk_completes_iff {s : FileDownload} (h : s.state ≠ .completed) (io : ChunkIo) :
    (s.sendNextChunk io).state = .completed ↔ s.state = .inProgress ∧ s.bytesInFlight = 0 ∧ s.AtEnd io := by
  have hturn := turn_sendNextChunk s io
  generalize s.sendNextChunk io = s' at hturn ⊢
  cases hturn with
  | rests hc => exact absurd hc h
  | stops hne hc hf =>
    constructor
    · intro hstop
      exact absurd hstop (clientStop_ne h)
    · intro hp
      exact absurd hp.1 hne
  | completes hp hf hend f t => exact ⟨fun _ => ⟨hp, hf, hend⟩, fun _ => rfl⟩
  | awaits hread hnot f => exact ⟨fun hc => absurd hc h, fun hp => absurd hp hnot⟩
  | sent hp hread f w a r n =>
    constructor
    · intro hc
      exact absurd hc h
    · intro hend
      exact absurd (chunkRead_atEnd hend.2.2) hread

theorem sends_completes_iff {s : FileDownload} {e : DownloadEvent} {io : ChunkIo} (he : s.sends e = some io)
    (h : s.state ≠ .completed) :
    (step s e).state = .completed ↔ s.state = .inProgress ∧ s.bytesInFlight = 0 ∧ s.AtEnd io := by
  have hdoes := does_step s e
  generalize step s e = s' at hdoes ⊢
  cases hdoes with
  | turn _ io' hsends hacked n r =>
    obtain rfl := Option.some.inj (hsends.symm.trans he)
    exact sendNextChunk_completes_iff (s := { s with posted := n, rateLimitTimer := r }) h io'
  | idle _ hsends hacked a r c ha => exact absurd (hsends.symm.trans he) (by simp)
  | timesOut _ hsends hacked ht message a c => exact absurd (hsends.symm.trans he) (by simp)
  | acked v n hn => exact absurd he (by simp [sends])
  | stops reason => exact absurd he (by simp [sends])

theorem onChunkAcknowledged_completes {s : FileDownload} (h : s.state ≠ .completed) (n : ℕ)
    (hc : (s.onChunkAcknowledged n).state = .completed) :
    s.state = .inProgress ∧ s.fileSize ≤ s.bytesTransferred ∧ (s.onChunkAcknowledged n).bytesInFlight = 0 := by
  rw [onChunkAcknowledged] at hc ⊢
  simp only at hc ⊢
  split_ifs at hc ⊢ with hle hwait heof hzero hdone
  · exact absurd hc h
  · exact ⟨hdone.1, hdone.2, hzero⟩
  · exact absurd hc (clientStop_ne h)
  all_goals exact absurd hc h

/-- **How a session becomes COMPLETED**: `send_next_chunk` at the end, `SERVER_STOP`, or the last ACK. -/
theorem enters_completed {s : FileDownload} (h : s.state ≠ .completed) (e : DownloadEvent)
    (hc : (step s e).state = .completed) :
    (∃ io, s.sends e = some io ∧ s.state = .inProgress ∧ s.bytesInFlight = 0 ∧ s.AtEnd io) ∨
      (e = .stop .serverStop ∧ s.stopping = false ∧ s.fileSize ≤ s.bytesTransferred ∧ 0 < s.fileSize) ∨
      (s.state = .inProgress ∧ s.fileSize ≤ s.bytesTransferred ∧ (step s e).bytesInFlight = 0) := by
  rcases hsends : s.sends e with _ | io
  · right
    have hdoes := does_step s e
    generalize step s e = s' at hdoes hc ⊢
    cases hdoes with
    | idle _ _ hacked a r c ha => exact absurd hc h
    | turn _ io hsome hacked n r => exact absurd (hsends.symm.trans hsome) (by simp)
    | acked v n hn => exact Or.inr (onChunkAcknowledged_completes h n hc)
    | timesOut _ _ hacked ht message a c => exact absurd hc (clientStop_ne (by simp))
    | stops reason =>
      left
      rcases hs : s.stopping with _ | _
      · obtain ⟨rfl, hrest⟩ := (stop_completed_iff hs reason).1 hc
        exact ⟨rfl, rfl, hrest⟩
      · rw [stop_stopped hs] at hc
        exact absurd hc h
  · exact Or.inl ⟨io, rfl, (sends_completes_iff hsends h).1 hc⟩

/-! ## Staying COMPLETED -/

/-- no timer stops a closed session: the completion timer asks for the self reference -/
def Silent (s : FileDownload) : Prop := s.ackTimer.present = false ∧ s.selfReference = false

theorem stop_silent {s : FileDownload} (hs : s.stopping = false) (reason : StopReason) : (s.stop reason).Silent := by
  rw [stop, hs]
  exact ⟨rfl, rfl⟩

theorem sendNextChunk_silent {s : FileDownload} (hs : s.stopping = false) (io : ChunkIo)
    (h : (s.sendNextChunk io).stopping = true) : (s.sendNextChunk io).Silent := by
  have hnot : ¬ s.stopping = true := by simp [hs]
  have hturn := turn_sendNextChunk s io
  generalize s.sendNextChunk io = s' at hturn h ⊢
  cases hturn with
  | stops hne hc hf => exact stop_silent hs _
  | _ => exact absurd h hnot

theorem onChunkAcknowledged_silent {s : FileDownload} (hs : s.stopping = false) (n : ℕ)
    (h : (s.onChunkAcknowledged n).stopping = true) : (s.onChunkAcknowledged n).Silent := by
  have hnot : ¬ s.stopping = true := by simp [hs]
  rw [onChunkAcknowledged] at h ⊢
  simp only at h ⊢
  split_ifs at h ⊢
  · exact absurd h hnot
  · exact absurd h hnot
  · exact stop_silent (by exact hs) _
  all_goals exact absurd h hnot

/-- an event that closes a session leaves it silent -/
theorem closes_silent {s : FileDownload} (hs : s.stopping = false) (e : DownloadEvent)
    (h : (step s e).stopping = true) : (step s e).Silent := by
  have hdoes := does_step s e
  generalize step s e = s' at hdoes h ⊢
  cases hdoes with
  | idle _ hsends hacked a r c ha => exact absurd (hs.symm.trans h) (by decide)
  | turn _ io hsends hacked n r => exact sendNextChunk_silent (by exact hs) io h
  | acked v n hn => exact onChunkAcknowledged_silent hs n h
  | timesOut _ hsends hacked ht message a c => exact stop_silent (by exact hs) _
  | stops reason => exact stop_silent hs reason

theorem sendNextChunk_completed {s : FileDownload} (h : s.state = .completed) (hf : s.bytesInFlight = 0)
    (io : ChunkIo) : s.sendNextChunk io = s := by
  simp [sendNextChunk, finishSending, h, hf]

theorem onChunkAcknowledged_completed {s : FileDownload} (h : s.state = .completed) (hsilent : s.Silent) (n : ℕ) :
    (s.onChunkAcknowledged n).state = .completed ∧ (s.onChunkAcknowledged n).Silent := by
  rw [onChunkAcknowledged]
  simp only
  split_ifs with hle hwait heof hzero hdone hne
  · exact ⟨h, rfl, hsilent.2⟩
  · exact ⟨rfl, rfl, hsilent.2⟩
  · exact absurd h hne
  · exact ⟨h, rfl, hsilent.2⟩
  · exact ⟨h, rfl, hsilent.2⟩
  · exact ⟨h, hsilent⟩
  · exact ⟨h, hsilent⟩

/-- **A closed session that is COMPLETED stays so.** -/
theorem closed_step {s : FileDownload} (h : s.state = .completed) (hf : s.bytesInFlight = 0) (hs : s.stopping = true)
    (hsilent : s.Silent) (e : DownloadEvent) : (step s e).state = .completed ∧ (step s e).Silent := by
  have hdoes := does_step s e
  generalize step s e = s' at hdoes ⊢
  cases hdoes with
  | idle _ hsends hacked a r c ha => exact ⟨h, ha.trans hsilent.1, hsilent.2⟩
  | turn _ io hsends hacked n r =>
    rw [sendNextChunk_completed (by exact h) (by exact hf)]
    exact ⟨h, hsilent⟩
  | acked v n hn => exact onChunkAcknowledged_completed h hsilent n
  | timesOut _ hsends hacked ht message a c =>
    rcases ht with hpresent | hself
    · exact absurd (hpresent.symm.trans hsilent.1) (by decide)
    · exact absurd (hself.symm.trans hsilent.2) (by decide)
  | stops reason =>
    rw [stop_stopped hs]
    exact ⟨h, hsilent⟩

/-! ## Tracked sessions -/

/-- a session with the bytes read from its file and the number of bytes acknowledged -/
structure Tracked where
  session : FileDownload
  read : Bytes := []
  acked : ℕ := 0

namespace Tracked

def step (t : Tracked) (e : DownloadEvent) : Tracked where
  session := t.session.step e
  read := t.read ++ t.session.readBy e
  acked := t.acked + t.session.ackedBy e

/-- the bytes of the payloads queued for the stream -/
def sent (t : Tracked) : Bytes := t.session.payloads.flatten

/-- **What one event leaves**: the payloads are the first `bytes_transferred_` bytes read; a session that becomes
COMPLETED has sent the whole file, and all it sent is acknowledged; one that is COMPLETED when the server closes it, or
was closed before, stays COMPLETED. -/
structure Truthful (t : Tracked) (e : DownloadEvent) : Prop where
  sent : (t.step e).sent <+: (t.step e).read ∧ (t.step e).sent.length = (t.step e).session.bytesTransferred
  enters : t.session.state ≠ .completed → (t.step e).session.state = .completed →
    (t.step e).session.fileSize ≤ (t.step e).sent.length ∧ (t.step e).sent.length ≤ (t.step e).acked
  stays : t.session.state = .completed → t.session.stopping = true ∨ e = .stop .serverStop →
    (t.step e).session.state = .completed

structure Kept (t : Tracked) : Prop where
  inv : t.session.Inv
  counted : t.read.length = t.session.bytesTransferred
  acknowledged : t.acked + t.session.bytesInFlight = t.session.bytesTransferred
  sent : t.sent = t.read
  whole : t.session.state = .completed → t.session.fileSize ≤ t.session.bytesTransferred ∧ t.session.bytesInFlight = 0
  closed : t.session.state = .completed → t.session.stopping = true → t.session.Silent

/-! ## One event -/

theorem readBy_completed {s : FileDownload} (h : s.state = .completed) (e : DownloadEvent) : s.readBy e = [] := by
  rw [readBy]
  rcases s.sends e with _ | io
  · rfl
  · simp [chunkRead, h]

/-- a chunk that is refused is counted all the same -/
theorem sent_step (t : Tracked) (e : DownloadEvent) :
    (t.step e).sent = t.sent ++
      if (match t.session.sends e with | none => true | some io => io.queued) then t.session.readBy e else [] :=
  (step_counts t.session e).payloads

theorem Kept.step {t : Tracked} (hk : t.Kept) (e : DownloadEvent) (he : t.session.Sound e) : (t.step e).Kept := by
  have hcounts := step_counts t.session e
  have htransferred := hcounts.transferred
  have hflight := hcounts.inFlight
  have hcounted := hk.counted
  have hacknowledged := hk.acknowledged
  refine ⟨hk.inv.step e, ?_, ?_, ?_, fun hc => ?_, fun hc hs => ?_⟩
  · show (t.read ++ t.session.readBy e).length = (t.session.step e).bytesTransferred
    rw [List.length_append]
    omega
  · show t.acked + t.session.ackedBy e + (t.session.step e).bytesInFlight = (t.session.step e).bytesTransferred
    omega
  · rw [sent_step, hk.sent]
    show _ = t.read ++ t.session.readBy e
    split_ifs with hqueued
    · rfl
    · -- nothing was read, or the chunk would have been queued
      rcases hsends : t.session.sends e with _ | io <;> rw [hsends] at hqueued
      · exact absurd rfl hqueued
      · rw [readBy, hsends]
        show t.read ++ [] = t.read ++ t.session.chunkRead io
        by_cases hread : t.session.chunkRead io = []
        · rw [hread]
        · exact absurd (he.queued io hsends hread) hqueued
  · show (t.session.step e).fileSize ≤ (t.session.step e).bytesTransferred ∧ (t.session.step e).bytesInFlight = 0
    rw [hcounts.fileSize]
    by_cases h : t.session.state = .completed
    · obtain ⟨hwhole, hzero⟩ := hk.whole h
      rw [readBy_completed h] at htransferred hflight
      simp only [List.length_nil] at htransferred hflight
      omega
    · rcases enters_completed h e hc with ⟨io, hsends, hp, hzero, hend⟩ | ⟨rfl, hs, hwhole, hpos⟩ | ⟨-, hwhole, hzero⟩
      · have hwhole := he.whole io hsends hp hzero hend
        rw [readBy, hsends] at htransferred hflight
        simp only [chunkRead_atEnd hend, List.length_nil] at htransferred hflight
        omega
      · have hzero := he.acknowledged rfl hs hpos hwhole
        simp only [readBy, sends, List.length_nil] at htransferred hflight
        omega
      · omega
  · rcases hstopping : t.session.stopping with _ | _
    · exact closes_silent hstopping e hs
    · by_cases h : t.session.state = .completed
      · exact (closed_step h (hk.whole h).2 hstopping (hk.closed h hstopping) e).2
      · have hne := hk.inv.stopped hstopping
        rcases enters_completed h e hc with ⟨io, -, hp, -⟩ | ⟨-, hs', -⟩ | ⟨hp, -⟩
        · exact absurd hp hne
        · exact absurd (hs'.symm.trans hstopping) (by decide)
        · exact absurd hp hne

theorem Kept.truthful {t : Tracked} (hk : t.Kept) {e : DownloadEvent} (he : t.session.Sound e) : t.Truthful e := by
  have hk' := hk.step e he
  have hlength : (t.step e).sent.length = (t.step e).session.bytesTransferred := by rw [hk'.sent, hk'.counted]
  refine ⟨⟨by rw [hk'.sent], hlength⟩, fun _ hc => ?_, fun h hclosed => ?_⟩
  · obtain ⟨hwhole, hzero⟩ := hk'.whole hc
    have hacknowledged := hk'.acknowledged
    rw [hlength]
    omega
  · rcases hs : t.session.stopping with _ | _
    · obtain hs' | rfl := hclosed
      · exact absurd (hs.symm.trans hs') (by decide)
      · exact (stop_completed_iff hs .serverStop).2 ⟨rfl, (hk.whole h).1, he.notEmpty rfl hs h⟩
    · exact (closed_step h (hk.whole h).2 hs (hk.closed h hs) e).1

theorem Kept.sound {t : Tracked} (hk : t.Kept) {e : DownloadEvent} (ht : t.Truthful e) : t.session.Sound e := by
  have hcounts := step_counts t.session e
  have htransferred := hcounts.transferred
  have hlength : t.sent.length = t.session.bytesTransferred := by rw [hk.sent, hk.counted]
  refine ⟨fun io hsends hread => ?_, fun io hsends hp hzero hend => ?_, ?_, ?_⟩
  · by_contra hqueued
    have hsent := sent_step t e
    have hsent' := ht.sent.2
    rw [hsends] at hsent
    simp only [hqueued, if_false, List.append_nil] at hsent
    rw [readBy, hsends] at htransferred
    rw [hsent, hlength] at hsent'
    have hpos := List.length_pos_iff.2 hread
    have hsame : (t.session.step e).bytesTransferred = t.session.bytesTransferred := hsent'.symm
    simp only at htransferred
    omega
  · have hne : t.session.state ≠ .completed := by rw [hp]; decide
    have hwhole := (ht.enters hne ((sends_completes_iff hsends hne).2 ⟨hp, hzero, hend⟩)).1
    rw [ht.sent.2] at hwhole
    change (t.session.step e).fileSize ≤ (t.session.step e).bytesTransferred at hwhole
    rw [readBy, hsends] at htransferred
    simp only [chunkRead_atEnd hend, List.length_nil] at htransferred
    rw [hcounts.fileSize] at hwhole
    omega
  · rintro rfl hs h
    exact ((stop_completed_iff hs .serverStop).1 (ht.stays h (Or.inr rfl))).2.2
  · rintro rfl hs hpos hwhole
    by_cases h : t.session.state = .completed
    · exact (hk.whole h).2
    · have hacked := (ht.enters h ((stop_completed_iff hs .serverStop).2 ⟨rfl, hwhole, hpos⟩)).2
      rw [ht.sent.2] at hacked
      change (t.session.step (.stop .serverStop)).bytesTransferred ≤ t.acked + 0 at hacked
      have hacknowledged := hk.acknowledged
      simp only [readBy, sends, List.length_nil] at htransferred
      omega

/-! ## Runs -/

/-- a session whose start succeeded -/
def start (config : TransferConfig) (fileSize : ℕ) : Tracked where
  session := started config fileSize

theorem start_kept (config : TransferConfig) (fileSize : ℕ) : (start config fileSize).Kept where
  inv := (started_passed config fileSize).inv
  counted := rfl
  acknowledged := rfl
  sent := rfl
  whole h := absurd h (by simp [start, started, FileDownload.start])
  closed h := absurd h (by simp [start, started, FileDownload.start])

/-- **Every download is sent as it is read, and completes truthfully**, exactly if no chunk is refused, the file does
not end early, and `SERVER_STOP` finds neither an empty file completed nor unacknowledged bytes of a whole file. -/
theorem truthful_iff (config : TransferConfig) (fileSize : ℕ) (events : List DownloadEvent) :
    Run.Steps step Truthful (start config fileSize) events ↔
      Run.Steps step (fun t e => t.session.Sound e) (start config fileSize) events := by
  symm
  apply Run.Steps.iff_of_invariant (I := Kept)
  · intro t e hk he
    exact hk.step e he
  · intro t e hk
    constructor
    · intro he
      exact hk.truthful he
    · intro ht
      exact hk.sound ht
  · exact start_kept config fileSize

/-- **A refused chunk is counted; a file that has shrunk completes; an empty file is cancelled by the server's
close.** -/
theorem completed_wrongly :
    ¬ Run.Steps step Truthful (start { chunkSize := 4 } 3) [.posted { rest := some [1, 2, 3], queued := false }] ∧
      ¬ Run.Steps step Truthful (start { chunkSize := 4 } 3) [.posted { rest := some [] }] ∧
      ¬ Run.Steps step Truthful (start { chunkSize := 4 } 0)
        [.posted { rest := some [] }, .stop .serverStop] := by
  refine ⟨?_, ?_, ?_⟩
  · rintro ⟨h, -⟩
    exact absurd h.sent.2 (by decide)
  · rintro ⟨h, -⟩
    exact absurd (h.enters (by decide) (by decide)).1 (by decide)
  · rintro ⟨-, h, -⟩
    exact absurd (h.stays (by decide) (Or.inr rfl)) (by decide)

end Tracked

end Iotmp.FileDownload
