/-
How the two ends of a transfer keep each other going.

- `Going`: a sender that has not seen the end of its file has something pending, and waits for ACKs only when its window
  is full or the file is at its end.
- `Taking`: a receiver without a bandwidth limit has acknowledged all but what is below its threshold.
- `Flowing`: nothing is lost in between. What is in flight for the sender is under way, in an ACK that is under way, or
  below the threshold of the receiver, so that every ACK is accepted.
- `Undisturbed`: no timeout, no `stop`, no failed write.
- `transfer_arrives`: as long as nothing disturbs a transfer, it can be brought to its end from every state it reaches, if
  the window is not smaller than the threshold. The receiver has no limit on its bandwidth.
-/
import Mathlib.Tactic
import Iotmp.Fs.LinkSafety

namespace Iotmp

/-! ## The sender -/

namespace FileDownload

structure Going (s : FileDownload) : Prop where
  state : s.state = .inProgress ∨ s.state = .completed
  pending : s.fileStream.eof = false → s.Moving
  waiting : s.state = .inProgress → s.waitingForAck = true →
    s.fileStream.eof = true ∨ s.config.windowSize ≤ s.bytesInFlight

/-- a sender that finds nothing to read has seen the end -/
theorem read_end {f : InputFile} {rest : Bytes} {n : ℕ} (heof : f.eof = false) (hbad : f.bad = false) (hpos : 0 < n)
    (hread : ¬ (f.read (some rest) n).1.length > 0) : (f.read (some rest) n).2.eof = true := by
  have hread' : f.read (some rest) n = (rest.take n, { f with eof := decide (rest.length < n) }) := by
    rw [InputFile.read, if_neg (by simp [heof, hbad])]
  rw [hread'] at hread ⊢
  rw [List.length_take] at hread
  exact decide_eq_true (by omega)

/-- what a sender waits for after a turn -/
theorem sendNextChunk_waiting {s : FileDownload} (hr : s.Ready) {io : ChunkIo} {rest : Bytes} (hrest : io.rest = some rest)
    (hbad : s.fileStream.bad = false) (hpos : 0 < s.config.chunkSize) (hp : s.state = .inProgress)
    (hw : (s.sendNextChunk io).waitingForAck = true) :
    (s.sendNextChunk io).fileStream.eof = true ∨
      (s.sendNextChunk io).config.windowSize ≤ (s.sendNextChunk io).bytesInFlight := by
  have hnot : ¬ s.waitingForAck = true := by simp [hr.waiting]
  rw [sendNextChunk] at hw ⊢
  simp only at hw ⊢
  by_cases hend : s.state ≠ .inProgress ∨ !s.fileStream.isOpen ∨ s.fileStream.eof
  · have heof : s.fileStream.eof = true := by simpa [hp, hr.isOpen] using hend
    rw [if_pos hend]
    exact .inl ((finishSending_flags s).1.trans heof)
  · rw [if_neg hend] at hw ⊢
    have heof : s.fileStream.eof = false := by simpa using (not_or.1 (not_or.1 hend).2).2
    split_ifs at hw ⊢ with hfull hread
    · exact .inr hfull
    · right
      rw [continueSending] at hw ⊢
      split_ifs at hw ⊢ with hroom hdelay
      · exact absurd hw hnot
      · exact absurd hw hnot
      · exact Nat.le_of_not_lt hroom
    · left
      rw [hrest] at hread ⊢
      rw [endOfFile_fileStream]
      exact read_end heof hbad hpos hread

theorem eof_mono (s : FileDownload) (e : DownloadEvent) (h : (s.step e).fileStream.eof = false) :
    s.fileStream.eof = false := by
  rcases hsends : s.sends e with _ | io
  · exact (step_flags hsends).1.symm.trans h
  · have hdoes := does_step s e
    generalize s.step e = s' at hdoes h
    cases hdoes with
    | turn _ io' hsome hacked n r =>
      rcases sendNextChunk_flags { s with posted := n, rateLimitTimer := r } io' with ⟨-, heof, -⟩ | ⟨heof, -⟩
      · exact heof.symm.trans h
      · exact heof
    | idle _ hnone => exact absurd (hsends.symm.trans hnone) (by simp)
    | timesOut _ hnone => exact absurd (hsends.symm.trans hnone) (by simp)
    | acked v n hn => simp [sends] at hsends
    | stops reason => simp [sends] at hsends

theorem Going.pending_step {s : FileDownload} (h : s.Going) (hi : s.Inv) (e : DownloadEvent)
    (heof : (s.step e).fileStream.eof = false) : (s.step e).Moving := by
  have hbefore := eof_mono s e heof
  refine (moving_step_iff hi (h.pending hbefore) e).2 ?_
  cases e with
  | input v => exact fun n _ _ hend => absurd (hbefore.symm.trans hend) (by decide)
  | _ => trivial

/-- a turn of the sender -/
theorem Going.turn {file : Bytes} {s t : FileDownload} {io : ChunkIo} (h : s.Going) (hs : s.Sending file)
    (hr : s.state = .inProgress → t.Ready) (hrest : ∃ rest, io.rest = some rest)
    (hsame : t.state = s.state ∧ t.fileStream = s.fileStream ∧ t.config = s.config)
    (hpending : (t.sendNextChunk io).fileStream.eof = false → (t.sendNextChunk io).Moving) : (t.sendNextChunk io).Going := by
  obtain ⟨hstate, hfile, hconfig⟩ := hsame
  obtain ⟨rest, hrest⟩ := hrest
  refine ⟨?_, hpending, fun hp hw => ?_⟩
  · have hturn := turn_sendNextChunk t io
    generalize t.sendNextChunk io = s' at hturn ⊢
    cases hturn with
    | rests hc => exact .inr hc
    | stops hne hc hf =>
      rw [hstate] at hne hc
      exact (h.state.resolve_left hne |> hc).elim
    | completes => exact .inr rfl
    | awaits => exact hstate ▸ h.state
    | sent => exact hstate ▸ h.state
  · have hp' : t.state = .inProgress := by
      have hturn := turn_sendNextChunk t io
      generalize t.sendNextChunk io = s' at hturn hp
      cases hturn with
      | rests hc => exact absurd (hc.symm.trans hp) (by decide)
      | stops hne hc hf =>
        rw [hstate] at hne hc
        exact (h.state.resolve_left hne |> hc).elim
      | completes => exact absurd hp (by simp)
      | awaits => exact hp
      | sent => exact hp
    refine sendNextChunk_waiting (hr (hstate.symm.trans hp')) hrest ?_ ?_ hp' hw
    · rw [hfile]
      exact hs.good
    · rw [hconfig]
      exact hs.chunkSize.1

theorem Going.posted {file : Bytes} {s : FileDownload} {io : ChunkIo} (h : s.Going) (hs : s.Sending file)
    (hrest : ∃ rest, io.rest = some rest) : (s.step (.posted io)).Going := by
  have hpending := h.pending_step hs.inv (.posted io)
  by_cases hpos : s.posted = 0
  · have heq : s.step (.posted io) = s := by rw [FileDownload.step, if_pos hpos]
    rw [heq]
    exact h
  · have heq : s.step (.posted io) = FileDownload.sendNextChunk { s with posted := s.posted - 1 } io := by
      rw [FileDownload.step, if_neg hpos]
    rw [heq] at hpending ⊢
    exact h.turn hs (fun hp => hs.inv.ready_posted hpos hp) hrest ⟨rfl, rfl, rfl⟩ hpending

theorem Going.rateLimit {file : Bytes} {s : FileDownload} {io : ChunkIo} (h : s.Going) (hs : s.Sending file)
    (hrest : ∃ rest, io.rest = some rest) : (s.step (.rateLimit io)).Going := by
  have hpending := h.pending_step hs.inv (.rateLimit io)
  rcases hx : s.rateLimitTimer.next with _ | ⟨a, timer⟩
  · have heq : s.step (.rateLimit io) = s := by rw [FileDownload.step, hx]
    rw [heq]
    exact h
  · have heq : s.step (.rateLimit io) = FileDownload.sendNextChunk { s with rateLimitTimer := timer } io := by
      rw [FileDownload.step, hx]
    rw [heq] at hpending ⊢
    exact h.turn hs (fun hp => hs.inv.ready_delay hx hp) hrest ⟨rfl, rfl, rfl⟩ hpending

theorem Going.expired {s : FileDownload} (h : s.Going) (hi : s.Inv) (timer : DownloadTimer) :
    (s.step (.expired timer)).Going := by
  refine ⟨?_, h.pending_step hi (.expired timer), ?_⟩
  · cases timer <;> exact h.state
  · cases timer <;> exact h.waiting

/-- an ACK for bytes that are in flight -/
theorem Going.ack {file : Bytes} {s : FileDownload} {v : Json} {n : ℕ} (h : s.Going) (hs : s.Sending file)
    (hn : s.ackBytes v = some n) (hle : n ≤ s.bytesInFlight) : (s.step (.input v)).Going := by
  have heq : s.step (.input v) = s.onChunkAcknowledged n := by rw [FileDownload.step, handleInput, hn]
  have hpending := h.pending_step hs.inv (.input v)
  rw [heq] at hpending ⊢
  refine ⟨?_, hpending, fun hp hw => ?_⟩
  · rw [onChunkAcknowledged, if_pos hle]
    simp only
    split_ifs with hwait hmore hzero hsent hstate
    · exact h.state
    · exact .inr rfl
    · -- a session at the end of its file has sent all of it
      have hp : s.state = .inProgress := h.state.resolve_right hstate
      have heof : s.fileStream.eof = true := by simpa [hp] using hmore
      have hwhole : s.fileSize ≤ s.bytesTransferred := by
        rw [hs.fileSize, hs.eof heof]
      exact absurd ⟨hp, hwhole⟩ hsent
    all_goals exact h.state
  · have hstate : s.state = .inProgress := by
      by_contra hne
      exact onChunkAcknowledged_ne hne n hp
    have hcases := onChunkAcknowledged_cases hstate (hs.inv.not_stopping hstate) n
    generalize s.onChunkAcknowledged n = s' at hcases hp hw ⊢
    cases hcases with
    | refused hlt => omega
    | counted _ hroom =>
      rcases hroom with hnot | hroom
      · exact absurd (hnot.symm.trans hw) (by decide)
      · exact .inr hroom
    | resumed => simp at hw
    | ended _ _ _ _ hne => exact absurd hp hne
    | lost => simp at hw

theorem going_started (config : TransferConfig) (fileSize : ℕ) : (started config fileSize).Going where
  state := .inl rfl
  pending _ := (started_passed config fileSize).moving
  waiting _ h := absurd h (by simp [started, start])

end FileDownload

/-! ## The receiver -/

namespace FileUpload

/-- without a bandwidth limit, what was received is acknowledged but for less than the threshold -/
structure Taking (s : FileUpload) : Prop where
  state : s.state = .inProgress ∨ s.state = .completed
  noLimit : s.config.maxBandwidthMbps = 0 ∧ s.rateLimitTimer.armed = none ∧ s.rateLimitTimer.due = []
  below : s.state = .inProgress → s.bytesSinceLastAck < s.ackThreshold ∨ s.bytesSinceLastAck = 0
  accounted : s.Accounted
  acks : ∀ a ∈ s.acks, 0 < a.bytes
  last : s.state = .completed → s.config.expectedSize ≤ s.bytesReceived

theorem started_taking {config : TransferConfig} (hlimit : config.maxBandwidthMbps = 0) : (started config).Taking where
  state := .inl rfl
  noLimit := ⟨hlimit, rfl, rfl⟩
  below _ := .inr rfl
  accounted := started_accounted config
  acks := by simp [started, start, startReceiveTimeout]
  last h := absurd h (by simp [started, start, startReceiveTimeout])

/-- an ACK is sent at once, or not yet due -/
theorem acknowledge_unlimited (s : FileUpload) (hlimit : s.config.maxBandwidthMbps = 0) (early : Bool) :
    s.acknowledge early = s.sendAckNow s.bytesSinceLastAck ∧ (s.ackThreshold ≤ s.bytesSinceLastAck ∨ s.isLastChunk = true) ∨
      s.acknowledge early = s ∧ s.bytesSinceLastAck < s.ackThreshold ∧ s.isLastChunk = false := by
  by_cases hdue : s.bytesSinceLastAck ≥ s.ackThreshold ∨ s.isLastChunk
  · refine .inl ⟨?_, hdue⟩
    rw [acknowledge, if_pos hdue, sendAck, if_neg (by simp [hlimit])]
  · obtain ⟨hbelow, hlast⟩ := not_or.1 hdue
    exact .inr ⟨by rw [acknowledge, if_neg hdue], Nat.lt_of_not_ge hbelow, by simpa using hlast⟩

/-- **A chunk that is written**: the ACKs grow by one at most, and its bytes are received. -/
theorem Taking.deliver {s : FileUpload} (h : s.Taking) (hp : s.state = .inProgress) (hopen : s.fileOpen = true)
    {chunk : Bytes} (hne : chunk ≠ []) {io : UploadIo} (hwritten : io.written = true) :
    let s' := s.step (.input (.binary chunk none) io)
    s'.Taking ∧ s'.bytesReceived = s.bytesReceived + chunk.length ∧ s'.ackThreshold = s.ackThreshold ∧
      ∃ more, s'.acks = s.acks ++ more ∧ more.length ≤ 1 := by
  intro s'
  have hpos : 0 < chunk.length := List.length_pos_iff.2 hne
  have heq : s' = s.handleUploadChunk chunk io := by
    change FileUpload.step s (.input (.binary chunk none) io) = _
    rw [FileUpload.step, handleInput, if_neg (by simpa using hne)]
  have haccounted : s'.Accounted := heq ▸ h.accounted.handleUploadChunk chunk io
  rw [handleUploadChunk, if_neg (by simp [hp, hopen]), if_neg (by simp [hwritten])] at heq
  simp only at heq
  obtain ⟨state, hstate, hlast, heq⟩ : ∃ state, (state = .inProgress ∨ state = .completed) ∧
      (state = .completed → s.config.expectedSize ≤ s.bytesReceived + chunk.length) ∧
      s' = { FileUpload.acknowledge (s.receive chunk).startReceiveTimeout io.early with state := state } := by
    rw [heq]
    split_ifs with hlast
    · rw [isLastChunk, Bool.and_eq_true, decide_eq_true_eq, decide_eq_true_eq] at hlast
      exact ⟨.completed, .inr rfl, fun _ => hlast.2, rfl⟩
    · have hkept := (acknowledge_kept (s.receive chunk).startReceiveTimeout io.early).1.trans hp
      exact ⟨_, .inl hkept, fun hc => absurd (hkept.symm.trans hc) (by decide), rfl⟩
  rcases acknowledge_unlimited (s.receive chunk).startReceiveTimeout h.noLimit.1 io.early with ⟨hack, -⟩ | ⟨hack, hbelow, -⟩
  · rw [hack] at heq
    rw [heq] at haccounted ⊢
    refine ⟨⟨hstate, h.noLimit, fun _ => .inr rfl, haccounted, fun a ha => ?_, hlast⟩, rfl, rfl, _, rfl, le_rfl⟩
    rcases List.mem_append.1 ha with ha | ha
    · exact h.acks a ha
    · rw [List.mem_singleton.1 ha]
      exact Nat.add_pos_right _ hpos
  · rw [hack] at heq
    rw [heq] at haccounted ⊢
    exact ⟨⟨hstate, h.noLimit, fun _ => .inl hbelow, haccounted, h.acks, hlast⟩, rfl, rfl, [],
      (List.append_nil _).symm, Nat.zero_le _⟩

/-- timers that run out change nothing without a bandwidth limit -/
theorem Taking.timer {s : FileUpload} (h : s.Taking) {e : UploadEvent}
    (he : e = .receiveExpired ∨ e = .rateLimitExpired ∨ e = .rateLimit) :
    (s.step e).Taking ∧ (s.step e).bytesReceived = s.bytesReceived ∧ (s.step e).ackThreshold = s.ackThreshold ∧
      (s.step e).acks = s.acks ∧ (s.step e).state = s.state := by
  have hdue : s.rateLimitTimer.expire = s.rateLimitTimer := by
    obtain ⟨-, harmed, hdue⟩ := h.noLimit
    rw [Timer.expire, harmed, Option.toList_none, List.append_nil]
    rcases ht : s.rateLimitTimer with ⟨present, armed, due⟩
    rw [ht] at harmed
    simp only at harmed
    rw [harmed]
  have hnext : s.rateLimitTimer.next = none := by rw [Timer.next, h.noLimit.2.2]
  rcases he with rfl | rfl | rfl
  · exact ⟨⟨h.state, h.noLimit, h.below, h.accounted.same ⟨rfl, rfl, rfl, rfl⟩ id, h.acks, h.last⟩, rfl, rfl, rfl, rfl⟩
  · have heq : s.step .rateLimitExpired = s := by
      change { s with rateLimitTimer := s.rateLimitTimer.expire } = s
      rw [hdue]
    rw [heq]
    exact ⟨h, rfl, rfl, rfl, rfl⟩
  · have heq : s.step .rateLimit = s := by rw [FileUpload.step, hnext]
    rw [heq]
    exact ⟨h, rfl, rfl, rfl, rfl⟩

end FileUpload

/-! ## Both -/

namespace TransferLink

variable {file : Bytes} {streamId : UInt16} {t t' : TransferLink}

/-- no timeout, no `stop`, no failed write -/
def Undisturbed : LinkEvent → Prop
  | .sender (.expired _) => True
  | .sender _ => False
  | .deliver io => io.written = true
  | .receiver .receiveExpired | .receiver .rateLimitExpired | .receiver .rateLimit => True
  | .receiver _ => False
  | _ => True

def ackSum (acks : List UploadAck) : ℕ := (acks.map UploadAck.bytes).sum

/-- what is in flight for the sender is under way to the receiver, below its threshold, or in an ACK under way back -/
structure Flowing (file : Bytes) (t : TransferLink) : Prop where
  safe : t.Safe file
  going : t.sender.Going
  taking : t.receiver.Taking
  acknowledged : t.acknowledged ≤ t.receiver.acks.length
  received : t.receiver.bytesReceived = (t.sender.payloads.take t.delivered).flatten.length
  inFlight : t.sender.bytesInFlight + ackSum (t.receiver.acks.take t.acknowledged) = t.sender.bytesTransferred

theorem flatten_take_add {chunks : List Bytes} {i : ℕ} {chunk : Bytes} (h : chunks[i]? = some chunk) :
    (chunks.take (i + 1)).flatten.length = (chunks.take i).flatten.length + chunk.length := by
  rw [List.take_add_one, h, Option.toList_some, List.flatten_append, List.flatten_singleton, List.length_append]

theorem flatten_take_le (chunks : List Bytes) (i : ℕ) : (chunks.take i).flatten.length ≤ chunks.flatten.length := by
  conv_rhs => rw [← List.take_append_drop i chunks, List.flatten_append, List.length_append]
  exact Nat.le_add_right _ _

theorem ackSum_take_add {acks : List UploadAck} {i : ℕ} {a : UploadAck} (h : acks[i]? = some a) :
    ackSum (acks.take (i + 1)) = ackSum (acks.take i) + a.bytes := by
  rw [List.take_add_one, h, Option.toList_some, ackSum, List.map_append, List.sum_append]
  rfl

theorem ackSum_take_le (acks : List UploadAck) (i : ℕ) : ackSum (acks.take i) ≤ ackSum acks := by
  conv_rhs => rw [← List.take_append_drop i acks, ackSum, List.map_append, List.sum_append]
  exact Nat.le_add_right _ _

namespace Flowing

/-- the payloads are as long as the sender says -/
theorem sent (h : t.Flowing file) : t.sender.payloads.flatten.length = t.sender.bytesTransferred := by
  rw [h.safe.sending.payloads, List.length_take, min_eq_left h.safe.sending.within]

/-- **Every ACK under way is for bytes that are in flight.** -/
theorem accepted (h : t.Flowing file) {a : UploadAck} (ha : t.receiver.acks[t.acknowledged]? = some a) :
    a.bytes ≤ t.sender.bytesInFlight := by
  have honce : ackSum t.receiver.acks + t.receiver.bytesSinceLastAck = t.receiver.bytesReceived := h.taking.accounted.once
  have hnext := ackSum_take_add ha
  have hle := ackSum_take_le t.receiver.acks (t.acknowledged + 1)
  have hreceived := h.received
  have hsent := h.sent
  have htake := flatten_take_le t.sender.payloads t.delivered
  have hflight := h.inFlight
  omega

/-- a receiver that is COMPLETED has got every chunk -/
theorem no_chunk (h : t.Flowing file) (hc : t.receiver.state = .completed) {chunk : Bytes}
    (hchunk : t.sender.payloads[t.delivered]? = some chunk) : False := by
  have hpos := List.length_pos_iff.2 (h.safe.sending.chunks chunk (List.mem_of_getElem? hchunk)).1
  have hlast := h.taking.last hc
  rw [h.safe.expected] at hlast
  have hnext := flatten_take_add hchunk
  have htake := flatten_take_le t.sender.payloads (t.delivered + 1)
  have hreceived := h.received
  have hsent := h.sent
  have hwithin := h.safe.sending.within
  omega

/-- a handler of the sender -/
theorem send (h : t.Flowing file) {e : FileDownload.DownloadEvent} (he : t.sender.Reads file e)
    (hacked : t.sender.ackedBy e = 0) (hgoing : (t.sender.step e).Going) :
    Flowing file { t with sender := t.sender.step e } := by
  have hcounts := FileDownload.counts_of_reads he
  have htransferred := hcounts.transferred
  have hflight := hcounts.inFlight
  have hbefore := h.inFlight
  have hsafe : Safe file { t with sender := t.sender.step e } := h.safe.send he t.acknowledged
  refine ⟨hsafe, hgoing, h.taking, h.acknowledged, ?_, ?_⟩
  · change t.receiver.bytesReceived = ((t.sender.step e).payloads.take t.delivered).flatten.length
    have hsame : (t.sender.step e).payloads.take t.delivered = t.sender.payloads.take t.delivered := by
      rcases FileDownload.step_payloads he with hsame | ⟨-, hmore⟩
      · rw [hsame]
      · rw [hmore, List.take_append_of_le_length h.safe.delivered]
    rw [hsame]
    exact h.received
  · change (t.sender.step e).bytesInFlight + ackSum (t.receiver.acks.take t.acknowledged) =
      (t.sender.step e).bytesTransferred
    omega

theorem deliver (h : t.Flowing file) {io : UploadIo} (hwritten : io.written = true)
    (hstep : t.deliverChunk streamId io = some t') : t'.Flowing file := by
  have hsafe := h.safe.deliver hstep
  obtain ⟨chunk, hchunk, hstep⟩ := Option.bind_eq_some_iff.1 hstep
  obtain ⟨hne, hsize⟩ := h.safe.sending.chunks chunk (List.mem_of_getElem? hchunk)
  rw [received_chunk hsize] at hstep
  obtain rfl := Option.some.inj hstep
  have hp : t.receiver.state = .inProgress := h.taking.state.resolve_right fun hc => h.no_chunk hc hchunk
  obtain ⟨htaking, hreceived, -, more, hmore, -⟩ :=
    h.taking.deliver hp (h.safe.receiving.opened hp) hne hwritten
  refine ⟨hsafe, h.going, htaking, ?_, ?_, ?_⟩
  · change t.acknowledged ≤ (t.receiver.step _).acks.length
    rw [hmore, List.length_append]
    exact le_trans h.acknowledged (Nat.le_add_right _ _)
  · change (t.receiver.step _).bytesReceived = (t.sender.payloads.take (t.delivered + 1)).flatten.length
    rw [hreceived, flatten_take_add hchunk, h.received]
  · change t.sender.bytesInFlight + ackSum ((t.receiver.step _).acks.take t.acknowledged) = t.sender.bytesTransferred
    rw [hmore, List.take_append_of_le_length h.acknowledged]
    exact h.inFlight

theorem received_ack (a : UploadAck) (streamId : UInt16) : receivedData streamId a.payload = some a.payload := by
  have hbuffered : (SessionData.ack a).Buffered := trivial
  exact (hbuffered.deliverable streamId).received

theorem ackBytes_payload (s : FileDownload) {a : UploadAck} (hpos : 0 < a.bytes) (hlt : a.bytes < 2 ^ 64) :
    s.ackBytes a.payload = some a.bytes := by
  have hnat : (UInt64.ofNat a.bytes).toNat = a.bytes := by
    rw [UInt64.toNat_ofNat', Nat.mod_eq_of_lt hlt]
  have hfind : SortedMap.find (text "bytes") [(text "ack", Json.numberUnsigned a.ack.toUInt64),
      (text "bytes", .numberUnsigned (UInt64.ofNat a.bytes))] = some (.numberUnsigned (UInt64.ofNat a.bytes)) := rfl
  have hgt : UInt64.ofNat a.bytes > 0 := by
    rw [gt_iff_lt, UInt64.lt_iff_toNat_lt, hnat]
    exact hpos
  simp only [FileDownload.ackBytes, UploadAck.payload, hfind, Json.getSize, Option.map_some, if_pos hgt, hnat]

theorem acknowledge (h : t.Flowing file) (hfile : file.length < 2 ^ 64) (hstep : t.deliverAck streamId = some t') :
    t'.Flowing file := by
  obtain ⟨a, ha, hstep⟩ := Option.bind_eq_some_iff.1 hstep
  rw [received_ack] at hstep
  obtain rfl := Option.some.inj hstep
  have hle := h.accepted ha
  have hflight := h.inFlight
  have hwithin := h.safe.sending.within
  have hbytes := ackBytes_payload t.sender (h.taking.acks a (List.mem_of_getElem? ha)) (by omega)
  have hreads : t.sender.Reads file (.input a.payload) := reads_of_none rfl
  have hcounts := FileDownload.counts_of_reads hreads
  have hacked : t.sender.ackedBy (.input a.payload) = a.bytes := by
    simp only [FileDownload.ackedBy, hbytes, if_pos hle]
  have hread : t.sender.readBy (.input a.payload) = [] := rfl
  have htransferred := hcounts.transferred
  have hflight' := hcounts.inFlight
  rw [hread, List.length_nil] at htransferred hflight'
  rw [hacked] at hflight'
  obtain ⟨hlt, -⟩ := List.getElem?_eq_some_iff.1 ha
  refine ⟨h.safe.send hreads _, h.going.ack h.safe.sending hbytes hle, h.taking, hlt, ?_, ?_⟩
  · change t.receiver.bytesReceived = ((t.sender.step _).payloads.take t.delivered).flatten.length
    have hsame : (t.sender.step (.input a.payload)).payloads = t.sender.payloads := by
      rcases FileDownload.step_payloads hreads with hsame | ⟨hne, -⟩
      · exact hsame
      · exact absurd hread hne
    rw [hsame]
    exact h.received
  · change (t.sender.step _).bytesInFlight + ackSum (t.receiver.acks.take (t.acknowledged + 1)) =
      (t.sender.step _).bytesTransferred
    rw [ackSum_take_add ha]
    omega

/-- **One event** that disturbs nothing. -/
theorem step (h : t.Flowing file) (hfile : file.length < 2 ^ 64) (e : LinkEvent) (he : Undisturbed e)
    (hstep : step file streamId t e = some t') : t'.Flowing file := by
  have hsafe := h.safe.step e hstep
  cases e with
  | posted early =>
    obtain rfl := Option.some.inj hstep
    exact h.send (reads_chunkIo t.sender early).1 rfl (h.going.posted h.safe.sending ⟨_, rfl⟩)
  | rateLimit early =>
    obtain rfl := Option.some.inj hstep
    exact h.send (reads_chunkIo t.sender early).2 rfl (h.going.rateLimit h.safe.sending ⟨_, rfl⟩)
  | sender e =>
    cases e with
    | expired timer =>
      obtain rfl := Option.some.inj hstep
      exact h.send (reads_of_none rfl) rfl (h.going.expired h.safe.sending.inv timer)
    | _ => exact he.elim
  | deliver io => exact h.deliver he hstep
  | receiver e =>
    have htimer : e = .receiveExpired ∨ e = .rateLimitExpired ∨ e = .rateLimit := by
      cases e with
      | receiveExpired => exact .inl rfl
      | rateLimitExpired => exact .inr (.inl rfl)
      | rateLimit => exact .inr (.inr rfl)
      | _ => exact he.elim
    have ht' : t' = { t with receiver := t.receiver.step e } := by
      rcases htimer with rfl | rfl | rfl <;> exact (Option.some.inj hstep).symm
    obtain ⟨htaking, hreceived, -, hacks, -⟩ := h.taking.timer htimer
    subst ht'
    refine ⟨hsafe, h.going, htaking, ?_, hreceived.trans h.received, ?_⟩
    · exact h.acknowledged.trans (le_of_eq (congrArg List.length hacks).symm)
    · change t.sender.bytesInFlight + ackSum ((t.receiver.step e).acks.take t.acknowledged) = _
      rw [hacks]
      exact h.inFlight
  | acknowledge => exact h.acknowledge hfile hstep

end Flowing

theorem flowing_start (file : Bytes) {download upload : TransferConfig} (hpos : 0 < download.chunkSize)
    (hle : download.chunkSize ≤ DEFAULT_CHUNK_SIZE) (hlimit : upload.maxBandwidthMbps = 0) :
    (start file download upload).Flowing file where
  safe := safe_start file upload hpos hle
  going := FileDownload.going_started download file.length
  taking := FileUpload.started_taking hlimit
  acknowledged := Nat.zero_le _
  received := rfl
  inFlight := rfl

/-- **Nothing is lost between the two ends**: in every undisturbed run the bytes in flight for the sender are those under
way to the receiver, those below its threshold, and those of the ACKs under way back, so that every ACK is accepted. -/
theorem transfer_conserved (file : Bytes) (streamId : UInt16) (download upload : TransferConfig)
    (hpos : 0 < download.chunkSize) (hle : download.chunkSize ≤ DEFAULT_CHUNK_SIZE)
    (hlimit : upload.maxBandwidthMbps = 0) (hfile : file.length < 2 ^ 64) (events : List LinkEvent)
    (hevents : ∀ e ∈ events, Undisturbed e) :
    let t := run file streamId (start file download upload) events
    t.sender.bytesInFlight =
        (t.sender.payloads.drop t.delivered).flatten.length + t.receiver.bytesSinceLastAck +
          ackSum (t.receiver.acks.drop t.acknowledged) ∧
      (∀ a, t.receiver.acks[t.acknowledged]? = some a → a.bytes ≤ t.sender.bytesInFlight) ∧
      (t.sender.state = .inProgress ∨ t.sender.state = .completed) ∧
      (t.receiver.state = .inProgress ∨ t.receiver.state = .completed) := by
  intro t
  have h : t.Flowing file := Guarded.invariant_of_mem (fun _ e _ h he hstep => h.step hfile e he hstep) _ events
    (flowing_start file hpos hle hlimit) hevents
  refine ⟨?_, fun a ha => h.accepted ha, h.going.state, h.taking.state⟩
  have honce : ackSum t.receiver.acks + t.receiver.bytesSinceLastAck = t.receiver.bytesReceived := h.taking.accounted.once
  have hpayloads : t.sender.payloads.flatten.length =
      (t.sender.payloads.take t.delivered).flatten.length + (t.sender.payloads.drop t.delivered).flatten.length := by
    conv_lhs => rw [← List.take_append_drop t.delivered t.sender.payloads, List.flatten_append, List.length_append]
  have hacks : ackSum t.receiver.acks =
      ackSum (t.receiver.acks.take t.acknowledged) + ackSum (t.receiver.acks.drop t.acknowledged) := by
    conv_lhs => rw [← List.take_append_drop t.acknowledged t.receiver.acks, ackSum, List.map_append, List.sum_append]
    rfl
  have hsent := h.sent
  have hreceived := h.received
  have hflight := h.inFlight
  omega

theorem transfer_conserved_small :
    let t := run [1, 2, 3] 7 (start [1, 2, 3] { chunkSize := 2 } {}) [.posted true, .deliver {}]
    t.sender.bytesInFlight = 2 ∧
      t.sender.bytesInFlight = (t.sender.payloads.drop t.delivered).flatten.length + t.receiver.bytesSinceLastAck +
        ackSum (t.receiver.acks.drop t.acknowledged) :=
  ⟨by decide, (transfer_conserved [1, 2, 3] 7 { chunkSize := 2 } {} (by decide) (by decide) rfl (by decide)
    [.posted true, .deliver {}] (by simp [Undisturbed])).1⟩

/-! ## Progress -/

/-- the window is not smaller than what the receiver may leave unacknowledged -/
structure Room (t : TransferLink) : Prop where
  window : 0 < t.sender.config.windowSize
  threshold : t.receiver.ackThreshold ≤ t.sender.config.windowSize

/-- what is left to do: to read, to deliver, to acknowledge, and a delay that has not run out -/
def remaining (file : Bytes) (t : TransferLink) : ℕ :=
  4 * (file.length - t.sender.bytesTransferred) + 2 * (t.sender.payloads.length - t.delivered) +
    (t.receiver.acks.length - t.acknowledged) + if t.sender.rateLimitTimer.due = [] then 1 else 0

theorem Room.send (h : t.Room) (e : FileDownload.DownloadEvent) (n : ℕ) :
    Room { t with sender := t.sender.step e, acknowledged := n } := by
  have hconfig := FileDownload.step_config t.sender e
  refine ⟨?_, ?_⟩
  · change 0 < (t.sender.step e).config.windowSize
    rw [hconfig]
    exact h.window
  · change t.receiver.ackThreshold ≤ (t.sender.step e).config.windowSize
    rw [hconfig]
    exact h.threshold

theorem Room.receive (h : t.Room) {u : FileUpload} (hu : u.ackThreshold = t.receiver.ackThreshold) (n : ℕ) :
    Room { t with receiver := u, delivered := n } :=
  ⟨h.window, hu.trans_le h.threshold⟩

theorem Room.step (hroom : t.Room) (h : t.Flowing file) (e : LinkEvent) (he : Undisturbed e)
    (hstep : step file streamId t e = some t') : t'.Room := by
  cases e with
  | posted early =>
    obtain rfl := Option.some.inj hstep
    exact hroom.send _ _
  | rateLimit early =>
    obtain rfl := Option.some.inj hstep
    exact hroom.send _ _
  | sender e =>
    cases e with
    | expired timer =>
      obtain rfl := Option.some.inj hstep
      exact hroom.send _ _
    | _ => exact he.elim
  | deliver io =>
    obtain ⟨chunk, hchunk, hstep⟩ := Option.bind_eq_some_iff.1 hstep
    obtain ⟨hne, hsize⟩ := h.safe.sending.chunks chunk (List.mem_of_getElem? hchunk)
    rw [received_chunk hsize] at hstep
    obtain rfl := Option.some.inj hstep
    have hp : t.receiver.state = .inProgress := h.taking.state.resolve_right fun hc => h.no_chunk hc hchunk
    exact hroom.receive (h.taking.deliver hp (h.safe.receiving.opened hp) hne he).2.2.1 _
  | receiver e =>
    cases e with
    | receiveExpired =>
      obtain rfl := Option.some.inj hstep
      exact hroom.receive (h.taking.timer (.inl rfl)).2.2.1 _
    | rateLimitExpired =>
      obtain rfl := Option.some.inj hstep
      exact hroom.receive (h.taking.timer (.inr (.inl rfl))).2.2.1 _
    | rateLimit =>
      obtain rfl := Option.some.inj hstep
      exact hroom.receive (h.taking.timer (.inr (.inr rfl))).2.2.1 _
    | _ => exact he.elim
  | acknowledge =>
    obtain ⟨a, -, hstep⟩ := Option.bind_eq_some_iff.1 hstep
    obtain ⟨v, -, rfl⟩ := Option.map_eq_some_iff.1 hstep
    exact hroom.send _ _

/-- an ACK leaves the delay of the sender alone -/
theorem input_rateLimit (s : FileDownload) (v : Json) : (s.step (.input v)).rateLimitTimer.due = s.rateLimitTimer.due := by
  have hstop (t : FileDownload) (reason : StopReason) :
      (t.stop reason).rateLimitTimer.due = t.rateLimitTimer.due := by
    rw [FileDownload.stop]
    split_ifs <;> rfl
  rw [FileDownload.step, FileDownload.handleInput]
  rcases s.ackBytes v with _ | n
  · rfl
  · simp only
    rw [FileDownload.onChunkAcknowledged]
    simp only
    split_ifs
    all_goals first
      | rfl
      | exact hstop _ _

namespace Flowing

/-- a chunk is under way -/
theorem progress_chunk (h : t.Flowing file) (streamId : UInt16) {chunk : Bytes}
    (hchunk : t.sender.payloads[t.delivered]? = some chunk) :
    ∃ t', TransferLink.step file streamId t (.deliver {}) = some t' ∧ remaining file t' < remaining file t := by
  obtain ⟨hne, hsize⟩ := h.safe.sending.chunks chunk (List.mem_of_getElem? hchunk)
  have hp : t.receiver.state = .inProgress := h.taking.state.resolve_right fun hc => h.no_chunk hc hchunk
  have hwritten : ({} : UploadIo).written = true := rfl
  obtain ⟨-, -, -, more, hmore, hone⟩ := h.taking.deliver hp (h.safe.receiving.opened hp) hne hwritten
  obtain ⟨hlt, -⟩ := List.getElem?_eq_some_iff.1 hchunk
  refine ⟨{ t with receiver := t.receiver.step (.input (.binary chunk none) {}), delivered := t.delivered + 1 }, ?_, ?_⟩
  · change t.deliverChunk streamId {} = _
    rw [deliverChunk, hchunk, Option.bind_some, received_chunk hsize]
    rfl
  · have hlength := congrArg List.length hmore
    rw [List.length_append] at hlength
    simp only [remaining]
    omega

/-- an ACK is under way -/
theorem progress_ack (file : Bytes) (streamId : UInt16) {a : UploadAck}
    (ha : t.receiver.acks[t.acknowledged]? = some a) :
    ∃ t', TransferLink.step file streamId t .acknowledge = some t' ∧ remaining file t' < remaining file t := by
  refine ⟨{ t with sender := t.sender.step (.input a.payload), acknowledged := t.acknowledged + 1 }, ?_, ?_⟩
  · change t.deliverAck streamId = _
    rw [deliverAck, ha, Option.bind_some, received_ack]
    rfl
  · have hreads : t.sender.Reads file (.input a.payload) := reads_of_none rfl
    have htransferred := (FileDownload.counts_of_reads hreads).transferred
    have hpayloads : (t.sender.step (.input a.payload)).payloads = t.sender.payloads := by
      rcases FileDownload.step_payloads hreads with hsame | ⟨hne, -⟩
      · exact hsame
      · exact absurd rfl hne
    have hdue := input_rateLimit t.sender a.payload
    obtain ⟨hlt, -⟩ := List.getElem?_eq_some_iff.1 ha
    have hread : (t.sender.readBy (.input a.payload)).length = 0 := rfl
    simp only [remaining, hpayloads, hdue]
    omega

/-- nothing is under way, and the receiver has not got the whole file: the sender has something pending, and room for it -/
theorem quiet (h : t.Flowing file) (hroom : t.Room) (hpos : 0 < file.length) (hnot : t.receiver.state ≠ .completed)
    (hchunk : t.sender.payloads[t.delivered]? = none) (hack : t.receiver.acks[t.acknowledged]? = none) :
    t.sender.CanSend ∧ t.sender.bytesTransferred < file.length ∧ t.sender.SenderPending := by
  have hp : t.receiver.state = .inProgress := h.taking.state.resolve_right hnot
  have hall : t.sender.payloads.take t.delivered = t.sender.payloads := List.take_of_length_le (by simpa using hchunk)
  have hallAcks : t.receiver.acks.take t.acknowledged = t.receiver.acks := List.take_of_length_le (by simpa using hack)
  have honce : ackSum t.receiver.acks + t.receiver.bytesSinceLastAck = t.receiver.bytesReceived := h.taking.accounted.once
  have hreceived := h.received
  have hflight := h.inFlight
  have hsent := h.sent
  rw [hall] at hreceived
  rw [hallAcks] at hflight
  have hless : t.sender.bytesTransferred < file.length := by
    by_contra hge
    have hlast : t.receiver.isLastChunk = true := by
      rw [FileUpload.isLastChunk, h.safe.expected, Bool.and_eq_true, decide_eq_true_eq, decide_eq_true_eq]
      omega
    exact (h.taking.accounted.final hlast).2 hp
  have hwindow : t.sender.bytesInFlight < t.sender.config.windowSize := by
    have hthreshold := hroom.threshold
    have hwindow := hroom.window
    rcases h.taking.below hp with hbelow | hzero <;> omega
  have hsender : t.sender.state = .inProgress := by
    refine h.going.state.resolve_right fun hc => ?_
    have hdone := h.safe.sending.done hc
    omega
  have heof : t.sender.fileStream.eof = false := by
    by_contra hend
    have hend' := h.safe.sending.eof (by simpa using hend)
    omega
  have hlive := h.safe.sending.inv.live hsender
  refine ⟨⟨hsender, hlive.isOpen, heof, h.safe.sending.good, hwindow⟩, hless, ?_⟩
  have hstopping := h.safe.sending.inv.not_stopping hsender
  rcases (hlive.moving_iff hsender hstopping).1 (h.going.pending heof) with hpending | hwaiting
  · exact hpending
  · rcases h.going.waiting hsender hwaiting with hend | hfull
    · exact absurd (heof.symm.trans hend) (by decide)
    · omega

/-- a turn that can read does so -/
theorem progress_turn (h : t.Flowing file) (hcan : t.sender.CanSend) (hless : t.sender.bytesTransferred < file.length)
    {e : FileDownload.DownloadEvent} {early : Bool} (hsends : t.sender.sends e = some (chunkIo file t.sender early))
    (he : t.sender.Reads file e) : remaining file { t with sender := t.sender.step e } < remaining file t := by
  have hread : t.sender.readBy e = (file.drop t.sender.bytesTransferred).take t.sender.config.chunkSize := by
    rw [FileDownload.readBy_of_sends hsends, FileDownload.chunkRead_of_canSend hcan rfl]
  have hlength := congrArg List.length hread
  rw [List.length_take, List.length_drop] at hlength
  have hpos := h.safe.sending.chunkSize.1
  have htransferred := (FileDownload.counts_of_reads he).transferred
  have hpayloads : (t.sender.step e).payloads.length ≤ t.sender.payloads.length + 1 := by
    rcases FileDownload.step_payloads he with hsame | ⟨-, hmore⟩
    · rw [hsame]
      omega
    · rw [hmore, List.length_append, List.length_singleton]
  simp only [remaining]
  split_ifs <;> omega

/-- **Something can be done** until the receiver is COMPLETED. -/
theorem progress (h : t.Flowing file) (hroom : t.Room) (hpos : 0 < file.length) (streamId : UInt16)
    (hnot : t.receiver.state ≠ .completed) :
    ∃ e t', Undisturbed e ∧ TransferLink.step file streamId t e = some t' ∧ remaining file t' < remaining file t := by
  rcases hchunk : t.sender.payloads[t.delivered]? with _ | chunk
  · rcases hack : t.receiver.acks[t.acknowledged]? with _ | a
    · obtain ⟨hcan, hless, hpending⟩ := h.quiet hroom hpos hnot hchunk hack
      rcases hpending with hposted | hdelay
      · have hsends : t.sender.sends (.posted (chunkIo file t.sender false)) = some (chunkIo file t.sender false) :=
          if_neg hposted.ne'
        exact ⟨.posted false, _, trivial, rfl, h.progress_turn hcan hless hsends (reads_chunkIo t.sender false).1⟩
      · by_cases hdue : t.sender.rateLimitTimer.due = []
        · -- the delay runs out
          refine ⟨.sender (.expired .rateLimit), _, trivial, rfl, ?_⟩
          have hafter : (t.sender.step (.expired .rateLimit)).rateLimitTimer.due ≠ [] := by
            intro hnone
            have hlength := congrArg List.length hnone
            change (t.sender.rateLimitTimer.due ++ t.sender.rateLimitTimer.armed.toList).length = 0 at hlength
            rw [List.length_append] at hlength
            rw [Timer.waits] at hdelay
            omega
          change 4 * (file.length - t.sender.bytesTransferred) + 2 * (t.sender.payloads.length - t.delivered) +
            (t.receiver.acks.length - t.acknowledged) +
              (if (t.sender.step (.expired .rateLimit)).rateLimitTimer.due = [] then 1 else 0) < _
          rw [if_neg hafter, remaining, if_pos hdue]
          exact Nat.lt_succ_self _
        · have hsends : t.sender.sends (.rateLimit (chunkIo file t.sender false)) =
              some (chunkIo file t.sender false) := if_neg hdue
          exact ⟨.rateLimit false, _, trivial, rfl, h.progress_turn hcan hless hsends (reads_chunkIo t.sender false).2⟩
    · obtain ⟨t', hstep, hless⟩ := progress_ack file streamId hack
      exact ⟨.acknowledge, t', trivial, hstep, hless⟩
  · obtain ⟨t', hstep, hless⟩ := h.progress_chunk streamId hchunk
    exact ⟨.deliver {}, t', rfl, hstep, hless⟩

end Flowing

/-- **A transfer can always be brought to its end**: from every state that an undisturbed run reaches, some events, none
of which disturbs it, lead to a COMPLETED receiver with the whole file. -/
theorem transfer_arrives (file : Bytes) (streamId : UInt16) (download upload : TransferConfig)
    (hpos : 0 < download.chunkSize) (hle : download.chunkSize ≤ DEFAULT_CHUNK_SIZE)
    (hlimit : upload.maxBandwidthMbps = 0) (hempty : 0 < file.length) (hfile : file.length < 2 ^ 64)
    (hwindow : 0 < download.windowSize)
    (hthreshold : calculateAckThreshold file.length upload.chunkSize ≤ download.windowSize) (events : List LinkEvent)
    (hevents : ∀ e ∈ events, Undisturbed e) :
    ∃ more, (∀ e ∈ more, Undisturbed e) ∧
      let t := run file streamId (start file download upload) (events ++ more)
      t.receiver.state = .completed ∧ t.receiver.file = some file := by
  have hstart : (start file download upload).Flowing file ∧ (start file download upload).Room :=
    ⟨flowing_start file hpos hle hlimit, hwindow, hthreshold⟩
  have hkeep : ∀ t e t', t.Flowing file ∧ t.Room → Undisturbed e → step file streamId t e = some t' →
      t'.Flowing file ∧ t'.Room :=
    fun t e t' h he hstep => ⟨h.1.step hfile e he hstep, h.2.step h.1 e he hstep⟩
  have hnow := Guarded.invariant_of_mem hkeep _ events hstart hevents
  obtain ⟨more, hmore, hdone⟩ := Guarded.reaches (fun t => t.Flowing file ∧ t.Room) (fun t => t.receiver.state = .completed)
    (remaining file) (fun t h hnot => by
      obtain ⟨e, t', he, hstep, hless⟩ := h.1.progress h.2 hempty streamId hnot
      exact ⟨e, t', he, hstep, hkeep t e t' h he hstep, hless⟩) _ hnow
  refine ⟨more, hmore, ?_⟩
  have hsafe : (run file streamId (start file download upload) (events ++ more)).Safe file :=
    safe_run upload hpos hle (events ++ more)
  have hcompleted : (run file streamId (start file download upload) (events ++ more)).receiver.state = .completed := by
    rw [run, Guarded.run, Run.run_append]
    exact hdone
  exact ⟨hcompleted, hsafe.received hcompleted⟩

/-- the sizes that the device uses leave room -/
theorem default_threshold (fileSize : ℕ) : calculateAckThreshold fileSize DEFAULT_CHUNK_SIZE ≤ DEFAULT_WINDOW_SIZE := by
  have hmax : DEFAULT_CHUNK_SIZE * 4 ≤ DEFAULT_WINDOW_SIZE ∧ MAX_ACK_THRESHOLD ≤ DEFAULT_WINDOW_SIZE := by decide
  rw [calculateAckThreshold]
  split_ifs with hsize
  · exact hmax.1
  · simp only
    split_ifs <;> omega

theorem transfer_arrives_small :
    ∃ more, (∀ e ∈ more, Undisturbed e) ∧
      let t := run [1, 2, 3] 7 (start [1, 2, 3] {} {}) ([.posted true] ++ more)
      t.receiver.state = .completed ∧ t.receiver.file = some [1, 2, 3] :=
  transfer_arrives [1, 2, 3] 7 {} {} (by decide) (by decide) rfl (by decide) (by decide) (by decide) (default_threshold 3)
    [.posted true] (by simp [Undisturbed])

end TransferLink

end Iotmp
