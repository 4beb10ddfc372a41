/-
The window of a download: how much of what it has sent may be unacknowledged.

`send_next_chunk` asks whether the window has room, then reads and sends a whole chunk; an ACK is accepted if no more
than its bytes are in flight. The server chooses `window_size_`, the device the chunk size.

- `inFlight_counts`: in every state reached, the bytes in flight and those of the accepted ACKs are together
  `bytes_transferred_`. Nothing wraps, whatever the ACKs say.
- `window_iff`: the bytes in flight are those sent and not acknowledged, and fit into the window, in every state of a
  run exactly if every chunk that is read fits into what the window leaves and is queued for the stream.
- Counterexample `window_exceeded`: a window of 1 byte, a file of 2.
-/
import Mathlib.Tactic
import Iotmp.Fs.DownloadBytes

namespace Iotmp.FileDownload

/-! ## What is read next -/

/-- `send_next_chunk` gets as far as reading the file -/
structure CanSend (s : FileDownload) : Prop where
  inProgress : s.state = .inProgress
  isOpen : s.fileStream.isOpen = true
  notEof : s.fileStream.eof = false
  notBad : s.fileStream.bad = false
  room : s.bytesInFlight < s.config.windowSize

theorem chunkRead_of_canSend {s : FileDownload} (h : s.CanSend) {io : ChunkIo} {rest : Bytes}
    (hrest : io.rest = some rest) :
    s.chunkRead io = rest.take s.config.chunkSize := by
  rw [chunkRead, if_neg (by simp [h.inProgress, h.isOpen, h.notEof]), if_neg (Nat.not_le.2 h.room)]
  simp [InputFile.read, h.notEof, h.notBad, hrest]

theorem canSend_of_chunkRead {s : FileDownload} {io : ChunkIo} (h : s.chunkRead io ≠ []) :
    s.CanSend ∧ ∃ rest, io.rest = some rest := by
  rw [chunkRead] at h
  split_ifs at h with hend hfull
  · exact absurd rfl h
  · exact absurd rfl h
  · have hgo : s.state = .inProgress ∧ s.fileStream.isOpen = true ∧ s.fileStream.eof = false := by simpa using hend
    rcases hbad : s.fileStream.bad with _ | _
    · rcases hrest : io.rest with _ | rest
      · exact absurd (by simp [InputFile.read, hgo.2.2, hbad, hrest]) h
      · exact ⟨⟨hgo.1, hgo.2.1, hgo.2.2, hbad, Nat.lt_of_not_ge hfull⟩, rest, rfl⟩
    · exact absurd (by simp [InputFile.read, hbad]) h

/-- a chunk that is read fits into what the window leaves, and is queued for the stream -/
structure Fits (s : FileDownload) (e : DownloadEvent) : Prop where
  room : ∀ io rest, s.sends e = some io → s.CanSend → io.rest = some rest →
    s.bytesInFlight + min s.config.chunkSize rest.length ≤ s.config.windowSize
  queued : ∀ io rest, s.sends e = some io → s.CanSend → io.rest = some rest →
    0 < min s.config.chunkSize rest.length → io.queued = true

/-- the condition, in terms of what is read -/
theorem fits_iff {s : FileDownload} (hw : s.bytesInFlight ≤ s.config.windowSize) (e : DownloadEvent) :
    s.Fits e ↔ s.bytesInFlight + (s.readBy e).length ≤ s.config.windowSize ∧
      ∀ io, s.sends e = some io → s.chunkRead io ≠ [] → io.queued = true := by
  refine ⟨fun h => ⟨?_, fun io hsends hread => ?_⟩, fun h => ⟨fun io rest hsends hcan hrest => ?_,
    fun io rest hsends hcan hrest hpos => ?_⟩⟩
  · rcases hsends : s.sends e with _ | io
    · simpa [readBy_of_none hsends] using hw
    · rw [readBy_of_sends hsends]
      by_cases hread : s.chunkRead io = []
      · simpa [hread] using hw
      · obtain ⟨hcan, rest, hrest⟩ := canSend_of_chunkRead hread
        rw [chunkRead_of_canSend hcan hrest, List.length_take]
        exact h.room io rest hsends hcan hrest
  · obtain ⟨hcan, rest, hrest⟩ := canSend_of_chunkRead hread
    apply h.queued io rest hsends hcan hrest
    rw [← List.length_take, ← chunkRead_of_canSend hcan hrest]
    exact List.length_pos_iff.2 hread
  · have hroom := h.1
    rwa [readBy_of_sends hsends, chunkRead_of_canSend hcan hrest, List.length_take] at hroom
  · apply h.2 io hsends
    rw [chunkRead_of_canSend hcan hrest, ← List.length_pos_iff, List.length_take]
    exact hpos

/-! ## One event -/

theorem stop_config (s : FileDownload) (reason : StopReason) : (s.stop reason).config = s.config := by
  rw [stop]
  split_ifs <;> rfl

theorem sendNextChunk_config (s : FileDownload) (io : ChunkIo) : (s.sendNextChunk io).config = s.config := by
  have hturn := turn_sendNextChunk s io
  generalize s.sendNextChunk io = s' at hturn ⊢
  cases hturn with
  | stops h hc hf => exact stop_config s _
  | _ => rfl

theorem onChunkAcknowledged_config (s : FileDownload) (n : ℕ) : (s.onChunkAcknowledged n).config = s.config := by
  rw [onChunkAcknowledged]
  simp only
  split_ifs
  all_goals first
    | rfl
    | exact stop_config _ _

theorem step_config (s : FileDownload) (e : DownloadEvent) : (step s e).config = s.config := by
  have hdoes := does_step s e
  generalize step s e = s' at hdoes ⊢
  cases hdoes with
  | idle _ hsends hacked a r c ha => rfl
  | turn _ io hsends hacked n r => exact sendNextChunk_config _ io
  | acked v n h => exact onChunkAcknowledged_config s n
  | timesOut _ hsends hacked h message a c => exact stop_config _ _
  | stops reason => exact stop_config s reason

/-- an event that sends acknowledges nothing, one that acknowledges sends nothing -/
theorem readBy_or_ackedBy (s : FileDownload) (e : DownloadEvent) : s.readBy e = [] ∨ s.ackedBy e = 0 := by
  cases e with
  | posted io => exact Or.inr rfl
  | rateLimit io => exact Or.inr rfl
  | _ => exact Or.inl rfl

namespace Tracked

/-- **The window is respected**: what is in flight is what was sent and not acknowledged, and fits. -/
structure Window (t : Tracked) : Prop where
  inFlight : t.session.bytesInFlight + t.acked = t.sent.length
  fits : t.session.bytesInFlight ≤ t.session.config.windowSize

/-- the session's own count of what it has sent -/
def Balanced (t : Tracked) : Prop := t.session.bytesInFlight + t.acked = t.session.bytesTransferred

theorem Balanced.step {t : Tracked} (h : t.Balanced) (e : DownloadEvent) : (t.step e).Balanced := by
  have hcounts := step_counts t.session e
  have htransferred := hcounts.transferred
  have hflight := hcounts.inFlight
  show (t.session.step e).bytesInFlight + (t.acked + t.session.ackedBy e) = (t.session.step e).bytesTransferred
  have hbefore : t.session.bytesInFlight + t.acked = t.session.bytesTransferred := h
  omega

/-- **Nothing wraps**: in every state reached, the bytes in flight are `bytes_transferred_` less those of the accepted
ACKs. -/
theorem inFlight_counts (config : TransferConfig) (fileSize : ℕ) (events : List DownloadEvent) :
    (Run.run step (start config fileSize) events).Balanced :=
  Run.always (fun _ e h => h.step e) _ events rfl

/-- one event keeps the window exactly if what it reads fits and is queued -/
theorem window_step_iff {t : Tracked} (h : t.Window) (e : DownloadEvent) : (t.step e).Window ↔ t.session.Fits e := by
  have hcounts := step_counts t.session e
  have hflight := hcounts.inFlight
  have hsent := sent_step t e
  have hin := h.inFlight
  have hfits := h.fits
  have hconfig : (t.step e).session.config = t.session.config := step_config t.session e
  have hacked : (t.step e).acked = t.acked + t.session.ackedBy e := rfl
  have hsession : (t.step e).session = t.session.step e := rfl
  rw [fits_iff hfits]
  refine ⟨fun h' => ⟨?_, fun io hsends hread => ?_⟩, fun h' => ⟨?_, ?_⟩⟩
  · have hfits' := h'.fits
    rw [hconfig, hsession] at hfits'
    rcases readBy_or_ackedBy t.session e with hread | hacks
    · simpa [hread] using hfits
    · omega
  · by_contra hqueued
    have hin' := h'.inFlight
    simp only [hsends, hqueued, if_false, List.append_nil] at hsent
    rw [hsent, hsession, hacked] at hin'
    have hpos := List.length_pos_iff.2 hread
    rw [readBy_of_sends hsends] at hflight
    omega
  · rw [hsent, hsession, hacked, List.length_append]
    rcases hsends : t.session.sends e with _ | io
    · rw [readBy_of_none hsends] at hflight ⊢
      simp only [List.length_nil] at hflight
      simp only [if_true, List.length_nil]
      omega
    · rw [readBy_of_sends hsends] at hflight ⊢
      simp only at hflight ⊢
      by_cases hread : t.session.chunkRead io = []
      · rw [hread] at hflight ⊢
        simp only [List.length_nil] at hflight
        rw [ite_self, List.length_nil]
        omega
      · rw [if_pos (h'.2 io hsends hread)]
        omega
  · rw [hconfig, hsession]
    have hroom := h'.1
    omega

/-! ## Runs -/

/-- **The window of a download.** In every run the bytes in flight and the acknowledged ones are those counted as sent;
they are those that were sent, and fit into the window, in every state reached exactly if every chunk that is read fits
into what the window leaves and is queued. -/
theorem window_iff (config : TransferConfig) (fileSize : ℕ) (events : List DownloadEvent) :
    (Run.run step (start config fileSize) events).Balanced ∧
      ((∀ events', events' <+: events → (Run.run step (start config fileSize) events').Window) ↔
        Run.Steps step (fun t e => t.session.Fits e) (start config fileSize) events) := by
  refine ⟨inFlight_counts config fileSize events, ?_⟩
  apply Run.always_iff_steps (I := fun _ => True)
  · exact fun t e _ => trivial
  · exact fun t e _ h => window_step_iff h e
  · trivial
  · exact ⟨rfl, Nat.zero_le _⟩

/-- **A chunk passes the window**: 2 bytes in flight, a window of 1. -/
theorem window_exceeded :
    ¬ (Run.run step (start { windowSize := 1 } 2) [.posted { rest := some [1, 2] }]).Window := by
  intro h
  exact absurd h.fits (by decide)

end Tracked

end Iotmp.FileDownload
