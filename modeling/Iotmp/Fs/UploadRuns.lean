/-
What can undo a completed upload.

A session is completed by its last chunk and stays so until the server closes the stream. `stopFor` spares the file of a
completed session only if the reason is SERVER_STOP, and nothing takes back the receive timeout of the last chunk.

- `durable_iff`: once completed, a session never becomes cancelled, failed or timed out and its file is never removed,
  exactly if no receive timeout and no `stop` for another reason than SERVER_STOP comes while it is completed.
- Counterexample `silent_server_removes_file`: all bytes are received and acknowledged, then the server is silent.
-/
import Mathlib.Tactic
import Iotmp.Fs.Upload

namespace Iotmp.FileUpload

/-- neither cancelled, nor failed, nor timed out, and the file is there -/
def Intact (s : FileUpload) : Prop :=
  s.state ≠ .cancelled ∧ s.state ≠ .failed ∧ s.state ≠ .timedOut ∧ s.file ≠ none

/-- the receive timeout is not called, or finds its timer gone; `stop` is the server's, or a second one -/
def Harmless (s : FileUpload) : UploadEvent → Prop
  | .receiveTimeout => s.receiveTimeoutTimer.due = [] ∨ s.receiveTimeoutTimer.present = false
  | .stop reason => s.stopping = true ∨ reason = .serverStop
  | _ => True

/-! ## The file of a session -/

/-- a session in progress or completed has its file; in progress it has not been stopped -/
structure Inv (s : FileUpload) : Prop where
  file : s.state = .inProgress ∨ s.state = .completed → s.file ≠ none
  running : s.state = .inProgress → s.stopping = false

/-- a session that is over, with no file to keep -/
def Over (s : FileUpload) : Prop := s.state ≠ .inProgress ∧ s.state ≠ .completed

theorem Over.inv {s : FileUpload} (h : s.Over) : s.Inv := by
  refine ⟨fun hs => ?_, fun hs => absurd hs h.1⟩
  rcases hs with hs | hs
  · exact absurd hs h.1
  · exact absurd hs h.2

/-- `stop` keeps a completed session for the server, and else removes the file -/
theorem stop_cases {s : FileUpload} (hs : s.stopping = false) (reason : StopReason) :
    ((s.stop reason).Over ∧ (s.stop reason).file = none) ∨
      (s.state = .completed ∧ reason = .serverStop ∧ (s.stop reason).state = .completed ∧
        (s.stop reason).file = s.file) := by
  rw [stop, if_neg (by simp [hs])]
  cases reason with
  | serverStop =>
    rw [stopFor]
    split_ifs with hc
    · exact Or.inr ⟨hc, rfl, hc, rfl⟩
    · exact Or.inl (by simp [Over, removeFile])
  | clientStop =>
    rw [stopFor]
    split_ifs with hc
    · refine Or.inl ⟨⟨fun h => ?_, fun h => ?_⟩, rfl⟩ <;> rcases hc with hc | hc <;>
        exact absurd (hc.symm.trans h) (by decide)
    · exact Or.inl (by simp [Over, removeFile])
  | disconnected => exact Or.inl (by simp [Over, stopFor, removeFile])

theorem stop_over {s : FileUpload} (h : s.Over) (reason : StopReason) : (s.stop reason).Over := by
  rcases hs : s.stopping with _ | _
  · rcases stop_cases hs reason with ⟨ho, -⟩ | ⟨hc, -⟩
    · exact ho
    · exact absurd hc h.2
  · rw [stop, if_pos hs]
    exact h

/-! ## Chunks -/

theorem acknowledge_kept (s : FileUpload) (early : Bool) :
    (s.acknowledge early).state = s.state ∧ (s.acknowledge early).file = s.file ∧
      (s.acknowledge early).stopping = s.stopping := by
  rw [acknowledge]
  split_ifs
  · rw [sendAck]
    split_ifs <;> exact ⟨rfl, rfl, rfl⟩
  · exact ⟨rfl, rfl, rfl⟩

/-- a chunk does nothing, fails the session, or is in the file then -/
theorem input_cases {s : FileUpload} (v : Json) (io : UploadIo) :
    step s (.input v io) = s ∨ (s.state = .inProgress ∧ ((step s (.input v io)).Over ∨
      ∃ data, (step s (.input v io)).file = s.file.map (· ++ data) ∧
        (step s (.input v io)).stopping = s.stopping)) := by
  cases v with
  | binary data subtype =>
    rw [step, handleInput]
    split_ifs
    · exact Or.inl rfl
    · rw [handleUploadChunk]
      simp only
      split_ifs with hgo hwritten
      · exact Or.inl rfl
      · have hp : s.state = .inProgress := by
          by_contra h
          exact hgo (Or.inl h)
        exact Or.inr ⟨hp, Or.inl (stop_over (by simp [Over]) _)⟩
      all_goals
        have hp : s.state = .inProgress := by
          by_contra h
          exact hgo (Or.inl h)
        obtain ⟨-, hfile, hstopping⟩ := acknowledge_kept (s.receive data).startReceiveTimeout io.early
        exact Or.inr ⟨hp, Or.inr ⟨data, hfile, hstopping⟩⟩
  | _ => exact Or.inl rfl

/-! ## One event -/

theorem Inv.step {s : FileUpload} (hi : s.Inv) (e : UploadEvent) : (step s e).Inv := by
  cases e with
  | input v io =>
    rcases input_cases (s := s) v io with h | ⟨hp, ho | ⟨data, hfile, hstopping⟩⟩
    · rw [h]
      exact hi
    · exact ho.inv
    · refine ⟨fun _ => ?_, fun _ => ?_⟩
      · rw [hfile]
        simpa using hi.file (Or.inl hp)
      · rw [hstopping]
        exact hi.running hp
  | receiveExpired => exact ⟨hi.file, hi.running⟩
  | rateLimitExpired => exact ⟨hi.file, hi.running⟩
  | receiveTimeout =>
    rw [FileUpload.step]
    rcases s.receiveTimeoutTimer.next with _ | ⟨a, t⟩
    · exact hi
    · simp only
      rw [onReceiveTimeout]
      split_ifs
      · exact (stop_over (by simp [Over]) _).inv
      · exact ⟨hi.file, hi.running⟩
  | rateLimit =>
    rw [FileUpload.step]
    rcases s.rateLimitTimer.next with _ | ⟨a, t⟩
    · exact hi
    · exact ⟨hi.file, hi.running⟩
  | stop reason =>
    rw [FileUpload.step]
    rcases hs : s.stopping with _ | _
    · rcases stop_cases hs reason with ⟨ho, -⟩ | ⟨hc, -, hc', hfile⟩
      · exact ho.inv
      · refine ⟨fun _ => ?_, fun h => ?_⟩
        · rw [hfile]
          exact hi.file (Or.inr hc)
        · exact absurd (hc'.symm.trans h) (by decide)
    · rw [FileUpload.stop, if_pos hs]
      exact hi

theorem intact_of_completed {s : FileUpload} (hi : s.Inv) (h : s.state = .completed) : s.Intact := by
  refine ⟨?_, ?_, ?_, hi.file (Or.inr h)⟩ <;> rw [h] <;> decide

theorem onReceiveTimeout_state {s : FileUpload} (h : s.receiveTimeoutTimer.present = true) :
    s.onReceiveTimeout.state = .timedOut := by
  rw [onReceiveTimeout, if_pos h, stop]
  split_ifs
  · rfl
  · simp [stopFor, removeFile]

/-- **One event on a completed session**: it stays completed, or it is no longer intact. -/
theorem completed_step {s : FileUpload} (h : s.state = .completed) (e : UploadEvent) :
    (s.Harmless e ∧ (step s e).state = .completed) ∨ (¬ s.Harmless e ∧ ¬ (step s e).Intact) := by
  cases e with
  | input v io =>
    rcases input_cases (s := s) v io with hs | ⟨hp, -⟩
    · exact Or.inl ⟨trivial, by rw [hs, h]⟩
    · exact absurd (hp.symm.trans h) (by decide)
  | receiveExpired => exact Or.inl ⟨trivial, h⟩
  | rateLimitExpired => exact Or.inl ⟨trivial, h⟩
  | receiveTimeout =>
    rw [step, Harmless]
    rcases hd : s.receiveTimeoutTimer.due with _ | ⟨a, due⟩
    · refine Or.inl ⟨Or.inl rfl, ?_⟩
      simp [Timer.next, hd, h]
    · simp only [Timer.next, hd]
      rcases hp : s.receiveTimeoutTimer.present with _ | _
      · refine Or.inl ⟨Or.inr rfl, ?_⟩
        simp [onReceiveTimeout, h]
      · refine Or.inr ⟨by simp, fun hi => hi.2.2.1 ?_⟩
        exact onReceiveTimeout_state rfl
  | rateLimit =>
    refine Or.inl ⟨trivial, ?_⟩
    rw [step]
    rcases s.rateLimitTimer.next with _ | ⟨bytes, t⟩
    · exact h
    · exact h
  | stop reason =>
    rw [step, Harmless]
    rcases hs : s.stopping with _ | _
    · rcases stop_cases hs reason with ⟨ho, hfile⟩ | ⟨-, rfl, hc, -⟩
      · refine Or.inr ⟨?_, fun hi => hi.2.2.2 hfile⟩
        rintro (hs' | rfl)
        · exact absurd hs' (by decide)
        · exact ho.2 (by simp [stop, hs, stopFor, h])
      · exact Or.inl ⟨Or.inr rfl, hc⟩
    · exact Or.inl ⟨Or.inl rfl, by rw [stop, if_pos hs, h]⟩

/-! ## Runs -/

theorem started_inv (config : TransferConfig) : (started config).Inv := by
  refine ⟨fun _ => ?_, fun _ => rfl⟩
  simp [started, start, startReceiveTimeout]

/-- **When a completed upload is durable.** In every state after one in which the session is completed, it is neither
cancelled, nor failed, nor timed out, and its file is there, exactly if no receive timeout that finds its timer comes
while the session is completed, and no first `stop` but the server's. -/
theorem durable_iff (config : TransferConfig) (events : List UploadEvent) :
    (∀ before after, before ++ after <+: events → ((started config).run before).state = .completed →
      ((started config).run (before ++ after)).Intact) ↔
    Run.Steps step (fun s e => s.state = .completed → s.Harmless e) (started config) events := by
  apply Run.once_iff_steps (I := Inv) (P := fun s => s.state = .completed) (Q := Intact) (p := Harmless)
    (fun s e hi => hi.step e)
  · intro s hi h
    exact intact_of_completed hi h
  · intro s e hi h
    rcases completed_step h e with ⟨hharm, hc⟩ | ⟨hharm, hc⟩
    · exact iff_of_true (intact_of_completed (hi.step e) hc) hharm
    · exact iff_of_false hc hharm
  · intro s e hi h hharm
    rcases completed_step h e with ⟨-, hc⟩ | ⟨hno, -⟩
    · exact hc
    · exact absurd hharm hno
  · exact started_inv config

/-- three bytes, all expected, and no further event from the server: after the receive timeout the file is gone -/
theorem silent_server_removes_file :
    let s := (started { expectedSize := 3 }).run [.input (.binary [1, 2, 3] none) {}]
    (s.state = .completed ∧ s.file = some [1, 2, 3] ∧ s.acks = [{ ack := 1, bytes := 3 }]) ∧
      let t := s.run [.receiveExpired, .receiveTimeout]
      t.state = .timedOut ∧ t.file = none := by
  decide

end Iotmp.FileUpload
