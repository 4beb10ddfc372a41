/-
What the two ends of a transfer make of a file, whatever happens between them.

- `Sending`: the sender's payloads are the part of the file it has read, and it is COMPLETED only when that is all.
- `Receiving`: the receiver's file holds what was delivered, or the beginning of it, and it is COMPLETED only when that
  is as long as expected.
- `transfer_safe`: in every run the destination is a beginning of the file, and the whole file once the receiver is
  COMPLETED, whatever timeouts, failed writes and calls of `stop` there were.
-/
import Mathlib.Tactic
import Iotmp.Fs.DownloadBytes
import Iotmp.Fs.DownloadWindow
import Iotmp.Fs.UploadAcks
import Iotmp.Fs.TransferLink

namespace Iotmp

/-! ## The sender -/

namespace FileDownload

/-- a handler that reads, reads where the last one stopped -/
def Reads (file : Bytes) (s : FileDownload) (e : DownloadEvent) : Prop :=
  ∀ io, s.sends e = some io → io.rest = some (file.drop s.bytesTransferred) ∧ io.queued = true

structure Sending (file : Bytes) (s : FileDownload) : Prop where
  inv : s.Inv
  fileSize : s.fileSize = file.length
  payloads : s.payloads.flatten = file.take s.bytesTransferred
  within : s.bytesTransferred ≤ file.length
  eof : s.fileStream.eof = true → s.bytesTransferred = file.length
  good : s.fileStream.bad = false
  chunkSize : 0 < s.config.chunkSize ∧ s.config.chunkSize ≤ DEFAULT_CHUNK_SIZE
  chunks : ∀ chunk ∈ s.payloads, chunk ≠ [] ∧ chunk.length ≤ DEFAULT_CHUNK_SIZE
  done : s.state = .completed → s.bytesTransferred = file.length

theorem finishSending_flags (s : FileDownload) :
    s.finishSending.fileStream.eof = s.fileStream.eof ∧ s.finishSending.fileStream.bad = s.fileStream.bad := by
  rw [finishSending]
  split_ifs
  · exact ⟨rfl, rfl⟩
  · exact ⟨rfl, rfl⟩
  · rw [stop]
    split_ifs <;> exact ⟨rfl, rfl⟩
  · exact ⟨rfl, rfl⟩

theorem continueSending_fileStream (s : FileDownload) (io : ChunkIo) :
    (s.continueSending io).fileStream = s.fileStream := by
  rw [continueSending]
  split_ifs <;> rfl

theorem endOfFile_fileStream (s : FileDownload) : s.endOfFile.fileStream = s.fileStream := by
  rw [endOfFile]
  split_ifs <;> rfl

/-- the flags of the file after a turn: as before, or those of a read -/
theorem sendNextChunk_flags (s : FileDownload) (io : ChunkIo) :
    s.chunkRead io = [] ∧ (s.sendNextChunk io).fileStream.eof = s.fileStream.eof ∧
        (s.sendNextChunk io).fileStream.bad = s.fileStream.bad ∨
      s.fileStream.eof = false ∧ s.chunkRead io = (s.fileStream.read io.rest s.config.chunkSize).1 ∧
        (s.sendNextChunk io).fileStream = (s.fileStream.read io.rest s.config.chunkSize).2 := by
  rw [chunkRead, sendNextChunk]
  simp only
  split_ifs with hend hfull hread
  · exact .inl ⟨rfl, finishSending_flags s⟩
  · exact .inl ⟨rfl, rfl, rfl⟩
  · refine .inr ⟨by simpa using (not_or.1 (not_or.1 hend).2).2, rfl, ?_⟩
    rw [continueSending_fileStream]
    rfl
  · refine .inr ⟨by simpa using (not_or.1 (not_or.1 hend).2).2, rfl, ?_⟩
    rw [endOfFile_fileStream]

/-- a handler that sends nothing leaves the flags of the file -/
theorem step_flags {s : FileDownload} {e : DownloadEvent} (hsends : s.sends e = none) :
    (s.step e).fileStream.eof = s.fileStream.eof ∧ (s.step e).fileStream.bad = s.fileStream.bad := by
  have hstop (t : FileDownload) (reason : StopReason) :
      (t.stop reason).fileStream.eof = t.fileStream.eof ∧ (t.stop reason).fileStream.bad = t.fileStream.bad := by
    rw [stop]
    split_ifs <;> exact ⟨rfl, rfl⟩
  have hdoes := does_step s e
  generalize s.step e = s' at hdoes ⊢
  cases hdoes with
  | idle _ _ hacked a r c ha => exact ⟨rfl, rfl⟩
  | turn _ io hsome hacked n r => exact absurd (hsends.symm.trans hsome) (by simp)
  | acked v n hn =>
    rw [onChunkAcknowledged]
    simp only
    split_ifs
    all_goals first
      | exact ⟨rfl, rfl⟩
      | exact hstop _ _
  | timesOut _ _ hacked ht message a c => exact hstop _ _
  | stops reason => exact hstop s reason

/-- **What an event adds to the payloads.** -/
theorem step_payloads {file : Bytes} {s : FileDownload} {e : DownloadEvent} (he : s.Reads file e) :
    (s.step e).payloads = s.payloads ∨ s.readBy e ≠ [] ∧ (s.step e).payloads = s.payloads ++ [s.readBy e] := by
  have hstop (t : FileDownload) (reason : StopReason) : (t.stop reason).payloads = t.payloads := by
    rw [stop]
    split_ifs <;> rfl
  have hdoes := does_step s e
  generalize s.step e = s' at hdoes ⊢
  cases hdoes with
  | idle _ hsends hacked a r c ha => exact .inl rfl
  | turn _ io hsends hacked n r =>
    rw [readBy_of_sends hsends]
    have hqueued := (he io hsends).2
    have hturn := turn_sendNextChunk { s with posted := n, rateLimitTimer := r } io
    generalize FileDownload.sendNextChunk { s with posted := n, rateLimitTimer := r } io = s' at hturn ⊢
    cases hturn with
    | stops h hc hf => exact .inl (hstop _ _)
    | sent h hread f w a r' n' =>
      refine .inr ⟨hread, ?_⟩
      simp only [hqueued]
      rfl
    | _ => exact .inl rfl
  | acked v n hn =>
    left
    rw [onChunkAcknowledged]
    simp only
    split_ifs
    all_goals first
      | rfl
      | exact hstop _ _
  | timesOut _ hsends hacked ht message a c => exact .inl (hstop _ _)
  | stops reason => exact .inl (hstop s reason)

/-- **What an event reads of the file**, and the flags it leaves. -/
theorem Sending.reads {file : Bytes} {s : FileDownload} {e : DownloadEvent} (h : s.Sending file) (he : s.Reads file e) :
    s.readBy e <+: file.drop s.bytesTransferred ∧ (s.readBy e).length ≤ s.config.chunkSize ∧
      (s.step e).fileStream.bad = false ∧
      ((s.step e).fileStream.eof = true → s.bytesTransferred + (s.readBy e).length = file.length) := by
  rcases hsends : s.sends e with _ | io
  · obtain ⟨heof, hbad⟩ := step_flags hsends
    rw [readBy_of_none hsends, heof, hbad]
    exact ⟨List.nil_prefix, Nat.zero_le _, h.good, h.eof⟩
  · obtain ⟨n, r, hstep⟩ : ∃ n r, s.step e = FileDownload.sendNextChunk { s with posted := n, rateLimitTimer := r } io := by
      have hdoes := does_step s e
      generalize s.step e = s' at hdoes ⊢
      cases hdoes with
      | turn _ io' hsome hacked n r =>
        obtain rfl := Option.some.inj (hsends.symm.trans hsome)
        exact ⟨n, r, rfl⟩
      | idle _ hnone => exact absurd (hsends.symm.trans hnone) (by simp)
      | timesOut _ hnone => exact absurd (hsends.symm.trans hnone) (by simp)
      | acked v n hn => simp [sends] at hsends
      | stops reason => simp [sends] at hsends
    rw [readBy_of_sends hsends, hstep]
    rcases sendNextChunk_flags { s with posted := n, rateLimitTimer := r } io with ⟨hread, heof, hbad⟩ | ⟨heof, hread, hf⟩
    · change s.chunkRead io = [] at hread
      rw [hread, heof, hbad]
      exact ⟨List.nil_prefix, Nat.zero_le _, h.good, h.eof⟩
    · change s.fileStream.eof = false at heof
      change s.chunkRead io = (s.fileStream.read io.rest s.config.chunkSize).1 at hread
      have hlength : (file.drop s.bytesTransferred).length = file.length - s.bytesTransferred := List.length_drop
      have hwithin := h.within
      rw [hread, hf]
      change _ ∧ _ ∧ (s.fileStream.read io.rest s.config.chunkSize).2.bad = false ∧
        ((s.fileStream.read io.rest s.config.chunkSize).2.eof = true → _)
      rw [(he io hsends).1, InputFile.read, if_neg (by simp [heof, h.good])]
      refine ⟨List.take_prefix _ _, List.length_take_le _ _, h.good, fun hend => ?_⟩
      rw [List.length_take]
      have hend' : (file.drop s.bytesTransferred).length < s.config.chunkSize := of_decide_eq_true hend
      omega

theorem counts_of_reads {file : Bytes} {s : FileDownload} {e : DownloadEvent} (he : s.Reads file e) :
    Counts s (s.readBy e) true (s.ackedBy e) (s.step e) := by
  have hcounts := step_counts s e
  rcases hsends : s.sends e with _ | io
  · simpa only [hsends] using hcounts
  · simpa only [hsends, (he io hsends).2] using hcounts

/-- **A session is COMPLETED only when it has read the whole file.** -/
theorem Sending.completes {file : Bytes} {s : FileDownload} {e : DownloadEvent} (h : s.Sending file) (he : s.Reads file e)
    (hc : (s.step e).state = .completed) : file.length ≤ s.bytesTransferred := by
  by_cases hstate : s.state = .completed
  · exact (h.done hstate).ge
  rcases enters_completed hstate e hc with ⟨io, hsends, hp, -, hend⟩ | ⟨-, -, hwhole, -⟩ | ⟨-, hwhole, -⟩
  · have hopen := (h.inv.live hp).isOpen
    rcases hend with hclosed | heof | ⟨hroom, hread⟩
    · exact absurd (hopen.symm.trans hclosed) (by decide)
    · exact (h.eof heof).ge
    · rcases heof : s.fileStream.eof with _ | _
      · rw [chunkRead_of_canSend ⟨hp, hopen, heof, h.good, hroom⟩ (he io hsends).1] at hread
        have hlength := congrArg List.length hread
        rw [List.length_take, List.length_drop, List.length_nil] at hlength
        have hpos := h.chunkSize.1
        omega
      · exact (h.eof heof).ge
  · rw [← h.fileSize]
    exact hwhole
  · rw [← h.fileSize]
    exact hwhole

/-- **One event** of the sender. -/
theorem Sending.step {file : Bytes} {s : FileDownload} {e : DownloadEvent} (h : s.Sending file) (he : s.Reads file e) :
    (s.step e).Sending file := by
  obtain ⟨hpre, hsize, hgood, heof⟩ := h.reads he
  have hcounts := counts_of_reads he
  have htransferred := hcounts.transferred
  have hlength := hpre.length_le
  rw [List.length_drop] at hlength
  have hwithin := h.within
  have hread : s.readBy e = (file.drop s.bytesTransferred).take (s.readBy e).length := List.prefix_iff_eq_take.1 hpre
  refine ⟨h.inv.step e, hcounts.fileSize.trans h.fileSize, ?_, by omega, fun hend => ?_, hgood, ?_, ?_, fun hc => ?_⟩
  · rw [hcounts.payloads, if_pos rfl, h.payloads, htransferred, List.take_add, ← hread]
  · rw [htransferred]
    exact heof hend
  · rw [step_config]
    exact h.chunkSize
  · rcases step_payloads he with hsame | ⟨hne, hmore⟩
    · rw [hsame]
      exact h.chunks
    · rw [hmore]
      intro chunk hchunk
      rcases List.mem_append.1 hchunk with hchunk | hchunk
      · exact h.chunks chunk hchunk
      · obtain rfl := List.mem_singleton.1 hchunk
        exact ⟨hne, hsize.trans h.chunkSize.2⟩
  · have hwhole := h.completes he hc
    omega

theorem sending_started (file : Bytes) {config : TransferConfig} (hpos : 0 < config.chunkSize)
    (hle : config.chunkSize ≤ DEFAULT_CHUNK_SIZE) : (started config file.length).Sending file where
  inv := (started_passed config file.length).inv
  fileSize := rfl
  payloads := rfl
  within := Nat.zero_le _
  eof h := absurd h (by simp [started, start])
  good := rfl
  chunkSize := ⟨hpos, hle⟩
  chunks := by simp [started, start]
  done h := absurd h (by simp [started, start])

end FileDownload

/-! ## The receiver -/

namespace FileUpload

/-- `chunks` is what was delivered -/
structure Receiving (chunks : List Bytes) (s : FileUpload) : Prop where
  inv : s.Inv
  opened : s.state = .inProgress → s.fileOpen = true
  file : ∀ bytes, s.file = some bytes → bytes <+: chunks.flatten
  progress : s.state = .inProgress → s.file = some chunks.flatten ∧ s.bytesReceived = chunks.flatten.length
  whole : s.state = .completed → ∀ bytes, s.file = some bytes → s.config.expectedSize ≤ bytes.length

/-- what leaves the file, the counters and the state alone -/
theorem Receiving.same {chunks : List Bytes} {s s' : FileUpload} (h : s.Receiving chunks) (hinv : s'.Inv)
    (hopen : s'.state = .inProgress → s'.fileOpen = true) (hfile : s'.file = s.file) (hstate : s'.state = s.state)
    (hreceived : s'.bytesReceived = s.bytesReceived) (hconfig : s'.config = s.config) : s'.Receiving chunks := by
  refine ⟨hinv, hopen, ?_, ?_, ?_⟩
  · rw [hfile]
    exact h.file
  · rw [hstate, hfile, hreceived]
    exact h.progress
  · rw [hstate, hfile, hconfig]
    exact h.whole

theorem Receiving.over {chunks : List Bytes} {s s' : FileUpload} (h : s.Receiving chunks) (hover : s'.Over)
    (hfile : s'.file = none ∨ s'.file = s.file) : s'.Receiving chunks := by
  refine ⟨hover.inv, fun hp => absurd hp hover.1, fun bytes hbytes => ?_, fun hp => absurd hp hover.1,
    fun hc => absurd hc hover.2⟩
  rcases hfile with hnone | hfile
  · exact absurd (hnone.symm.trans hbytes) (by simp)
  · exact h.file bytes (hfile.symm.trans hbytes)

theorem stop_same_or_over (s : FileUpload) (reason : StopReason) :
    (s.stop reason).file = s.file ∧ (s.stop reason).state = s.state ∨
      (s.stop reason).Over ∧ (s.stop reason).file = none := by
  rcases hs : s.stopping with _ | _
  · rcases stop_cases hs reason with hover | ⟨hc, -, hc', hfile⟩
    · exact .inr hover
    · exact .inl ⟨hfile, hc'.trans hc.symm⟩
  · rw [stop, if_pos hs]
    exact .inl ⟨rfl, rfl⟩

theorem Receiving.stop {chunks : List Bytes} {s : FileUpload} (h : s.Receiving chunks) (reason : StopReason) :
    (s.stop reason).Receiving chunks := by
  have hinv : (s.stop reason).Inv := h.inv.step (.stop reason)
  have hcounts := stop_same s reason
  rcases stop_same_or_over s reason with ⟨hfile, hstate⟩ | ⟨hover, hnone⟩
  · refine h.same hinv (fun hp => ?_) hfile hstate hcounts.received hcounts.config
    refine absurd hp (stop_state s reason fun hs hp' => ?_)
    exact absurd (hs.symm.trans (h.inv.running hp')) (by decide)
  · exact h.over hover (.inl hnone)

theorem receiveTimeout_same_or_over (s : FileUpload) :
    (s.step .receiveTimeout).file = s.file ∧ (s.step .receiveTimeout).state = s.state ∧
        (s.step .receiveTimeout).fileOpen = s.fileOpen ∨
      (s.step .receiveTimeout).Over ∧
        ((s.step .receiveTimeout).file = none ∨ (s.step .receiveTimeout).file = s.file) := by
  rw [FileUpload.step]
  rcases s.receiveTimeoutTimer.next with _ | ⟨a, t⟩
  · exact .inl ⟨rfl, rfl, rfl⟩
  · simp only
    rw [onReceiveTimeout]
    split_ifs
    · refine .inr ⟨stop_over (by simp [Over]) _, ?_⟩
      rcases stop_same_or_over { s with
        state := .timedOut
        errorMessage := "Timeout waiting for data"
        receiveTimeoutTimer := t.reset } .clientStop with ⟨hfile, -⟩ | ⟨-, hnone⟩
      · exact .inr hfile
      · exact .inl hnone
    · exact .inl ⟨rfl, rfl, rfl⟩

theorem Receiving.receiveTimeout {chunks : List Bytes} {s : FileUpload} (h : s.Receiving chunks) :
    (s.step .receiveTimeout).Receiving chunks := by
  have hinv := h.inv.step .receiveTimeout
  have hcounts := receiveTimeout_same s
  rcases receiveTimeout_same_or_over s with ⟨hfile, hstate, hopen⟩ | ⟨hover, hfile⟩
  · refine h.same hinv (fun hp => ?_) hfile hstate hcounts.received hcounts.config
    rw [hopen]
    exact h.opened (hstate.symm.trans hp)
  · exact h.over hover hfile

/-- nothing but chunks changes what was delivered -/
theorem Receiving.step {chunks : List Bytes} {s : FileUpload} (h : s.Receiving chunks) (e : UploadEvent)
    (he : ∀ v io, e ≠ .input v io) : (s.step e).Receiving chunks := by
  cases e with
  | input v io => exact absurd rfl (he v io)
  | receiveExpired => exact h.same (h.inv.step .receiveExpired) h.opened rfl rfl rfl rfl
  | rateLimitExpired => exact h.same (h.inv.step .rateLimitExpired) h.opened rfl rfl rfl rfl
  | receiveTimeout => exact h.receiveTimeout
  | rateLimit =>
    have hinv := h.inv.step .rateLimit
    have hsame : s.step .rateLimit = s ∨
        ∃ bytes t, s.step .rateLimit = FileUpload.sendAckNow { s with rateLimitTimer := t } bytes := by
      rw [FileUpload.step]
      rcases s.rateLimitTimer.next with _ | ⟨bytes, t⟩
      · exact .inl rfl
      · exact .inr ⟨bytes, t, rfl⟩
    rcases hsame with heq | ⟨bytes, t, heq⟩
    · rw [heq]
      exact h
    · rw [heq] at hinv ⊢
      exact h.same hinv h.opened rfl rfl rfl rfl
  | stop reason => exact h.stop reason

/-- a session that takes no chunk keeps what it has -/
theorem Receiving.ignore {chunks : List Bytes} {s : FileUpload} (h : s.Receiving chunks) (hp : s.state ≠ .inProgress)
    (chunk : Bytes) : s.Receiving (chunks ++ [chunk]) := by
  refine ⟨h.inv, h.opened, fun bytes hbytes => ?_, fun hp' => absurd hp' hp, h.whole⟩
  rw [List.flatten_append]
  exact (h.file bytes hbytes).trans (List.prefix_append _ _)

theorem acknowledge_fileOpen (s : FileUpload) (early : Bool) : (s.acknowledge early).fileOpen = s.fileOpen := by
  rw [acknowledge]
  split_ifs
  · rw [sendAck]
    split_ifs <;> rfl
  · rfl

/-- the chunk is in the file -/
theorem Receiving.taken {chunks : List Bytes} {s s' : FileUpload} (h : s.Receiving chunks) (hp : s.state = .inProgress)
    {chunk : Bytes} (hinv : s'.Inv) (hopen : s'.fileOpen = s.fileOpen) (hfile : s'.file = s.file.map (· ++ chunk))
    (hreceived : s'.bytesReceived = s.bytesReceived + chunk.length)
    (hlast : s'.state = .completed → s'.config.expectedSize ≤ s'.bytesReceived) : s'.Receiving (chunks ++ [chunk]) := by
  obtain ⟨hbefore, hlength⟩ := h.progress hp
  have hnow : s'.file = some (chunks ++ [chunk]).flatten := by
    rw [hfile, hbefore, List.flatten_append, List.flatten_singleton]
    rfl
  have hcount : s'.bytesReceived = (chunks ++ [chunk]).flatten.length := by
    rw [hreceived, hlength, List.flatten_append, List.flatten_singleton, List.length_append]
  refine ⟨hinv, fun _ => hopen.trans (h.opened hp), fun bytes hbytes => ?_, fun _ => ⟨hnow, hcount⟩,
    fun hc bytes hbytes => ?_⟩
  · rw [Option.some.inj (hbytes.symm.trans hnow)]
  · rw [Option.some.inj (hbytes.symm.trans hnow), ← hcount]
    exact hlast hc

/-- **A chunk is delivered**, and taken, ignored, or fails the session. -/
theorem Receiving.deliver {chunks : List Bytes} {s : FileUpload} (h : s.Receiving chunks) {chunk : Bytes}
    (hne : chunk ≠ []) (io : UploadIo) : (s.step (.input (.binary chunk none) io)).Receiving (chunks ++ [chunk]) := by
  have hinv := h.inv.step (.input (.binary chunk none) io)
  rw [FileUpload.step, handleInput, if_neg (by simpa using hne)] at hinv ⊢
  by_cases hp : s.state = .inProgress
  · rw [handleUploadChunk, if_neg (by simp [hp, h.opened hp])] at hinv ⊢
    by_cases hwritten : io.written = true
    · rw [if_neg (by simp [hwritten])] at hinv ⊢
      simp only at hinv ⊢
      have hopen := acknowledge_fileOpen (s.receive chunk).startReceiveTimeout io.early
      obtain ⟨hstate, hfile, -⟩ := acknowledge_kept (s.receive chunk).startReceiveTimeout io.early
      obtain ⟨hreceived, hconfig⟩ := acknowledge_frame (s.receive chunk).startReceiveTimeout io.early
      split_ifs at hinv ⊢ with hlast
      · refine h.taken hp hinv hopen hfile hreceived fun _ => ?_
        rw [isLastChunk, Bool.and_eq_true, decide_eq_true_eq, decide_eq_true_eq] at hlast
        change (FileUpload.acknowledge _ _).config.expectedSize ≤ (FileUpload.acknowledge _ _).bytesReceived
        rw [hreceived, hconfig]
        exact hlast.2
      · refine h.taken hp hinv hopen hfile hreceived fun hc => ?_
        rw [hstate] at hc
        exact absurd (hp.symm.trans hc) (by decide)
    · rw [if_pos (by simpa using hwritten)]
      refine (h.over (stop_over (by simp [Over]) _) ?_).ignore (stop_over (by simp [Over]) _).1 chunk
      rcases stop_same_or_over { s with state := .failed, errorMessage := "Failed to write to file" } .clientStop with
        ⟨hfile, -⟩ | ⟨-, hnone⟩
      · exact .inr hfile
      · exact .inl hnone
  · rw [handleUploadChunk, if_pos (.inl hp)]
    exact h.ignore hp chunk

theorem receiving_started (config : TransferConfig) : (started config).Receiving [] where
  inv := started_inv config
  opened _ := rfl
  file bytes hbytes := by
    obtain rfl : [] = bytes := Option.some.inj hbytes
    exact List.nil_prefix
  progress _ := ⟨rfl, rfl⟩
  whole h := absurd h (by simp [started, start, startReceiveTimeout])

theorem step_config (s : FileUpload) (e : UploadEvent) : (s.step e).config = s.config := by
  cases e with
  | input v io =>
    rw [step]
    cases v with
    | binary data subtype =>
      rw [handleInput]
      split_ifs
      · rfl
      · rw [handleUploadChunk]
        simp only
        split_ifs
        · rfl
        · exact (stop_same _ _).config
        · exact (acknowledge_frame _ _).2
        · exact (acknowledge_frame _ _).2
    | _ => rfl
  | receiveTimeout => exact (receiveTimeout_same s).config
  | rateLimit =>
    rw [step]
    rcases s.rateLimitTimer.next with _ | ⟨bytes, t⟩ <;> rfl
  | stop reason => exact (stop_same s reason).config
  | _ => rfl

end FileUpload

/-! ## Both -/

namespace TransferLink

variable {file : Bytes} {streamId : UInt16} {t t' : TransferLink}

/-- what goes through the stream arrives as it is -/
theorem received_chunk {chunk : Bytes} (h : chunk.length ≤ DEFAULT_CHUNK_SIZE) (streamId : UInt16) :
    receivedData streamId (SessionData.bytes chunk).payload = some (.binary chunk none) := by
  have hbuffered : (SessionData.bytes chunk).Buffered := le_max_of_le_left h
  exact (hbuffered.deliverable streamId).received

structure Safe (file : Bytes) (t : TransferLink) : Prop where
  sending : t.sender.Sending file
  receiving : t.receiver.Receiving (t.sender.payloads.take t.delivered)
  delivered : t.delivered ≤ t.sender.payloads.length
  expected : t.receiver.config.expectedSize = file.length

/-- the sender moves -/
theorem Safe.send (h : t.Safe file) {e : FileDownload.DownloadEvent} (he : t.sender.Reads file e) (n : ℕ) :
    Safe file { t with sender := t.sender.step e, acknowledged := n } := by
  have hgrows : ∃ more, (t.sender.step e).payloads = t.sender.payloads ++ more := by
    rcases FileDownload.step_payloads he with hsame | ⟨-, hmore⟩
    · exact ⟨[], by rw [hsame, List.append_nil]⟩
    · exact ⟨_, hmore⟩
  obtain ⟨more, hmore⟩ := hgrows
  refine ⟨h.sending.step he, ?_, ?_, h.expected⟩
  · change t.receiver.Receiving ((t.sender.step e).payloads.take t.delivered)
    rw [hmore, List.take_append_of_le_length h.delivered]
    exact h.receiving
  · change t.delivered ≤ (t.sender.step e).payloads.length
    rw [hmore, List.length_append]
    exact le_trans h.delivered (Nat.le_add_right _ _)

theorem reads_of_none {s : FileDownload} {e : FileDownload.DownloadEvent} (h : s.sends e = none) : s.Reads file e := by
  intro io hsome
  exact absurd (h.symm.trans hsome) (by simp)

theorem reads_chunkIo (s : FileDownload) (early : Bool) :
    s.Reads file (.posted (chunkIo file s early)) ∧ s.Reads file (.rateLimit (chunkIo file s early)) := by
  constructor
  all_goals
    intro io hsome
    simp only [FileDownload.sends] at hsome
    split_ifs at hsome
    obtain rfl := Option.some.inj hsome
    exact ⟨rfl, rfl⟩

theorem Safe.deliver (h : t.Safe file) {io : UploadIo} (hstep : t.deliverChunk streamId io = some t') :
    t'.Safe file := by
  obtain ⟨chunk, hchunk, hstep⟩ := Option.bind_eq_some_iff.1 hstep
  obtain ⟨hlt, hget⟩ := List.getElem?_eq_some_iff.1 hchunk
  obtain ⟨hne, hsize⟩ := h.sending.chunks chunk (List.mem_of_getElem? hchunk)
  rw [received_chunk hsize] at hstep
  obtain rfl := Option.some.inj hstep
  have htake : t.sender.payloads.take (t.delivered + 1) = t.sender.payloads.take t.delivered ++ [chunk] := by
    rw [List.take_add_one, hchunk]
    rfl
  refine ⟨h.sending, ?_, hlt, (congrArg _ (FileUpload.step_config _ _)).trans h.expected⟩
  change FileUpload.Receiving (t.sender.payloads.take (t.delivered + 1)) _
  rw [htake]
  exact h.receiving.deliver hne io

/-- **One event.** -/
theorem Safe.step (h : t.Safe file) (e : LinkEvent) (hstep : step file streamId t e = some t') : t'.Safe file := by
  cases e with
  | posted early =>
    obtain rfl := Option.some.inj hstep
    exact h.send (reads_chunkIo t.sender early).1 t.acknowledged
  | rateLimit early =>
    obtain rfl := Option.some.inj hstep
    exact h.send (reads_chunkIo t.sender early).2 t.acknowledged
  | sender e =>
    have hsome : t' = { t with sender := t.sender.step e } ∧ t.sender.sends e = none := by
      cases e with
      | posted io => cases hstep
      | rateLimit io => cases hstep
      | input v => cases hstep
      | _ => exact ⟨(Option.some.inj hstep).symm, rfl⟩
    rw [hsome.1]
    exact h.send (reads_of_none hsome.2) t.acknowledged
  | deliver io => exact h.deliver hstep
  | receiver e =>
    have hsome : t' = { t with receiver := t.receiver.step e } ∧ ∀ v io, e ≠ .input v io := by
      cases e with
      | input v io => cases hstep
      | _ => exact ⟨(Option.some.inj hstep).symm, fun _ _ h => by cases h⟩
    rw [hsome.1]
    refine ⟨h.sending, h.receiving.step e hsome.2, h.delivered, ?_⟩
    exact (congrArg _ (FileUpload.step_config _ _)).trans h.expected
  | acknowledge =>
    obtain ⟨a, -, hstep⟩ := Option.bind_eq_some_iff.1 hstep
    obtain ⟨v, -, rfl⟩ := Option.map_eq_some_iff.1 hstep
    exact h.send (reads_of_none rfl) _

theorem safe_start (file : Bytes) {download : TransferConfig} (upload : TransferConfig) (hpos : 0 < download.chunkSize)
    (hle : download.chunkSize ≤ DEFAULT_CHUNK_SIZE) : (start file download upload).Safe file where
  sending := FileDownload.sending_started file hpos hle
  receiving := FileUpload.receiving_started _
  delivered := Nat.zero_le _
  expected := rfl

theorem Safe.file_prefix (h : t.Safe file) {bytes : Bytes} (hbytes : t.receiver.file = some bytes) : bytes <+: file := by
  have hpayloads : (t.sender.payloads.take t.delivered).flatten <+: t.sender.payloads.flatten := by
    conv_rhs => rw [← List.take_append_drop t.delivered t.sender.payloads, List.flatten_append]
    exact List.prefix_append _ _
  rw [h.sending.payloads] at hpayloads
  exact ((h.receiving.file bytes hbytes).trans hpayloads).trans (List.take_prefix _ _)

theorem Safe.received (h : t.Safe file) (hc : t.receiver.state = .completed) : t.receiver.file = some file := by
  obtain ⟨bytes, hbytes⟩ := Option.ne_none_iff_exists'.1 (h.receiving.inv.file (.inr hc))
  have hlength := h.receiving.whole hc bytes hbytes
  rw [h.expected] at hlength
  rw [hbytes, (h.file_prefix hbytes).eq_of_length_le hlength]

theorem safe_run {download : TransferConfig} (upload : TransferConfig) (hpos : 0 < download.chunkSize)
    (hle : download.chunkSize ≤ DEFAULT_CHUNK_SIZE) (events : List LinkEvent) :
    (run file streamId (start file download upload) events).Safe file :=
  Guarded.always (fun _ e _ h hstep => h.step e hstep) _ events (safe_start file upload hpos hle)

/-- **Every run.** The destination is a beginning of the file as long as it is there; a receiver that is COMPLETED has
the whole file, and a sender that is COMPLETED has sent it. -/
theorem transfer_safe (file : Bytes) (streamId : UInt16) (download upload : TransferConfig)
    (hpos : 0 < download.chunkSize) (hle : download.chunkSize ≤ DEFAULT_CHUNK_SIZE) (events : List LinkEvent) :
    let t := run file streamId (start file download upload) events
    (∀ bytes, t.receiver.file = some bytes → bytes <+: file) ∧
      (t.receiver.state = .completed → t.receiver.file = some file) ∧
      (t.sender.state = .completed → t.sender.payloads.flatten = file) := by
  intro t
  have h : t.Safe file := safe_run upload hpos hle events
  refine ⟨fun bytes hbytes => h.file_prefix hbytes, fun hc => h.received hc, fun hc => ?_⟩
  rw [h.sending.payloads, h.sending.done hc, List.take_length]

theorem transfer_safe_small :
    let t := run [1, 2, 3] 7 (start [1, 2, 3] { chunkSize := 2 } {})
      [.posted true, .posted true, .deliver {}, .deliver {}]
    t.receiver.state = .completed ∧ t.receiver.file = some [1, 2, 3] :=
  ⟨by decide, (transfer_safe [1, 2, 3] 7 { chunkSize := 2 } {} (by decide) (by decide)
    [.posted true, .posted true, .deliver {}, .deliver {}]).2.1 (by decide)⟩

end TransferLink

end Iotmp
