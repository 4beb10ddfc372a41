/-
What a relay session passes on, in both directions.

- `taken`: the binary inputs that arrive while the session runs.
- `Relaying`: the invariant. The write queue is sound and, while the session runs, no write was cut; what was streamed,
  what a read has ended with and what was not read are all that the other side said, but for one chunk that the client
  refused when the connection was gone, after which nothing is read.
- `relayed`: in every run, what reaches the other side is a prefix of the input in order, what is streamed is a prefix
  of what the other side says, and input that waits has a loop as long as the session runs on an open socket.
- `all_streamed`: a session that nothing disturbs has streamed all that was said when its read loop is over.
- `stopped_quiet`: after `stop` nothing is written and nobody is signalled again, and the one payload that may follow is
  the read that had ended before. `stopped_released`: a session that was stopped can always end, by its own completions.
-/
import Mathlib.Tactic
import Iotmp.Relay.RelaySession

namespace Iotmp.RelaySession

variable {kind : RelayKind} {s s' : RelaySession}

/-! ## What comes in -/

/-- the data of an input that the session takes -/
def takes (s : RelaySession) : RelayEvent → List Bytes
  | .input (.binary data _) => if s.running ∧ data ≠ [] then [data] else []
  | _ => []

def taken (kind : RelayKind) : RelaySession → List RelayEvent → List Bytes
  | _, [] => []
  | s, e :: events => s.takes e ++ taken kind (Guarded.step (step kind) s e) events

/-- what a read that has ended brings -/
def inRead : ReadLoop → Bytes
  | .queued (some bytes) => bytes
  | _ => []

/-! ## stop -/

/-- **What `stop` does.** -/
theorem stop_eq (s : RelaySession) :
    s.stop =
      { s with
        running := false
        isOpen := false
        readLoop := if s.readLoop = .waiting then .queued none else s.readLoop
        pid := 0
        signalled := if s.pid ≠ 0 then s.signalled ++ [s.pid] else s.signalled } := by
  by_cases hpid : s.pid = 0
  · simp [stop, close, hangUpShell, hpid]
  · simp [stop, close, hangUpShell, hpid]

@[simp] theorem stop_running (s : RelaySession) : s.stop.running = false := by rw [stop_eq]

@[simp] theorem stop_isOpen (s : RelaySession) : s.stop.isOpen = false := rfl

@[simp] theorem stop_writer (s : RelaySession) : s.stop.writer = s.writer := by rw [stop_eq]

/-- a proxy that finds its socket closed stops; nothing else happens -/
theorem findClosed_cases (kind : RelayKind) (s : RelaySession) :
    s.findClosed kind = s ∨ s.isOpen = false ∧ s.findClosed kind = s.stop := by
  rw [findClosed]
  split_ifs with h
  · exact .inr ⟨by simpa using h.2.2.1, rfl⟩
  · exact .inl rfl

/-! ## The invariant -/

/-- the side of the session that reads and streams -/
structure Streaming (kind : RelayKind) (s : RelaySession) : Prop where
  bytes : ∃ lost, s.frames.flatten ++ lost ++ inRead s.readLoop ++ s.pipe = s.said ∧ (lost = [] ∨ s.readLoop = .ended)
  sizes : ∀ frame ∈ s.frames, frame.length ≤ kind.bufferSize
  size : (inRead s.readLoop).length ≤ kind.bufferSize
  closed : s.isOpen = false → s.readLoop ≠ .waiting
  reading : s.running = true → s.isOpen = true → s.readLoop ≠ .ended

/-- the side that queues and writes -/
structure Writing (s : RelaySession) : Prop where
  sound : s.writer.Sound
  cut : s.writer.CutLast
  whole : s.running = true → s.writer.Whole
  awake : s.mayWrite = true → s.writer.Awake

theorem started_eq (kind : RelayKind) (pid : ℤ) (hpid : kind = .terminal → 0 < pid) :
    started kind pid =
      { running := true, isOpen := true, readLoop := .spawned, pid := if kind = .terminal then pid else 0 } := by
  cases kind with
  | proxy => rfl
  | terminal =>
    have hshell : text "sh" ≠ [] := by decide
    simp [started, terminalStart, launch, hpid rfl, hshell]

/-! ## Reading -/

theorem Streaming.ofClosed (h : Streaming kind s) (hclosed : s'.isOpen = false)
    (hread : s'.readLoop = if s.readLoop = .waiting then .queued none else s.readLoop)
    (hframes : s'.frames = s.frames) (hpipe : s'.pipe = s.pipe) (hsaid : s'.said = s.said) : Streaming kind s' := by
  have hin : inRead s'.readLoop = inRead s.readLoop := by
    rw [hread]
    split_ifs with hw
    · rw [hw]
      rfl
    · rfl
  obtain ⟨lost, hbytes, hlost⟩ := h.bytes
  refine ⟨⟨lost, by rw [hframes, hin, hpipe, hsaid, hbytes], ?_⟩, by rw [hframes]; exact h.sizes, by rw [hin]; exact h.size,
    fun _ hw => ?_, fun _ hopen => absurd (hclosed.symm.trans hopen) (by decide)⟩
  · refine hlost.imp id fun hended => ?_
    rw [hread, if_neg (by simp [hended]), hended]
  · rw [hread] at hw
    split_ifs at hw with h'
    exact h' hw

theorem Streaming.stop (h : Streaming kind s) : Streaming kind s.stop := by
  rw [stop_eq]
  exact h.ofClosed rfl rfl rfl rfl rfl

theorem Streaming.close (h : Streaming kind s) : Streaming kind s.close := h.ofClosed rfl rfl rfl rfl rfl

theorem Streaming.findClosed (h : Streaming kind s) : Streaming kind (s.findClosed kind) := by
  rcases findClosed_cases kind s with heq | ⟨-, heq⟩
  · rw [heq]
    exact h
  · rw [heq]
    exact h.stop

/-- what is written and counted does not matter -/
theorem Streaming.write (h : Streaming kind s) (w : SerialWriter UInt8) (sent received : ℕ) :
    Streaming kind { s with writer := w, sent := sent, received := received } :=
  ⟨h.bytes, h.sizes, h.size, h.closed, h.reading⟩

/-- the loop goes on when the read it had has brought its bytes into the frames -/
theorem Streaming.nextRead (hbytes : s.frames.flatten ++ s.pipe = s.said)
    (hsizes : ∀ frame ∈ s.frames, frame.length ≤ kind.bufferSize) : Streaming kind s.nextRead := by
  have hin : inRead s.nextRead.readLoop = [] := by
    rw [RelaySession.nextRead]
    simp only
    split_ifs <;> rfl
  refine ⟨⟨[], ?_, .inl rfl⟩, hsizes, by simp [hin], fun hclosed => ?_, fun hrunning hopen => ?_⟩
  · rw [hin]
    change s.frames.flatten ++ [] ++ [] ++ s.pipe = s.said
    simpa using hbytes
  · have hclosed' : s.isOpen = false := hclosed
    simp [RelaySession.nextRead, hclosed']
  · have hrunning' : s.running = true := hrunning
    have hopen' : s.isOpen = true := hopen
    simp [RelaySession.nextRead, hrunning', hopen']

/-- nothing is lost before the loop is over -/
theorem Streaming.kept (h : Streaming kind s) (hloop : s.readLoop ≠ .ended) :
    s.frames.flatten ++ inRead s.readLoop ++ s.pipe = s.said := by
  obtain ⟨lost, hbytes, hnil | hended⟩ := h.bytes
  · simpa [hnil] using hbytes
  · exact absurd hended hloop

theorem Streaming.readReady (h : Streaming kind s) {n : ℕ} (hready : s.readReady kind n = some s') :
    Streaming kind s' := by
  rw [RelaySession.readReady] at hready
  simp only at hready
  split_ifs at hready with hw hpipe hup
  · obtain rfl := Option.some.inj hready
    have hkept := h.kept (by simp [hw])
    refine ⟨⟨[], ?_, .inl rfl⟩, h.sizes, ?_, fun _ => by simp, fun _ _ => by simp⟩
    · simpa [hw, inRead] using hkept
    · simp [inRead]
  · obtain rfl := Option.some.inj hready
    have hkept := h.kept (by simp [hw])
    refine ⟨⟨[], ?_, .inl rfl⟩, h.sizes, by simp [inRead], fun _ => by simp, fun _ _ => by simp⟩
    simpa [hw, inRead] using hkept

theorem Streaming.ended (h : Streaming kind s) (hloop : s.readLoop ≠ .ended) :
    Streaming kind { s.stop with readLoop := .ended } := by
  rw [stop_eq]
  refine ⟨⟨inRead s.readLoop, ?_, .inr rfl⟩, h.sizes, by simp [inRead], fun _ => by simp, fun hrunning => ?_⟩
  · simpa [inRead] using h.kept hloop
  · exact absurd hrunning (by simp)

theorem Streaming.resumeRead (h : Streaming kind s) {connected : Bool} (hresume : s.resumeRead kind connected = some s') :
    Streaming kind s' := by
  rw [RelaySession.resumeRead] at hresume
  split at hresume
  · rename_i hloop
    obtain rfl := Option.some.inj hresume
    exact Streaming.nextRead (by simpa [hloop, inRead] using h.kept (by simp [hloop])) h.sizes
  · rename_i hloop
    obtain rfl := Option.some.inj hresume
    exact h.ended (by simp [hloop])
  · rename_i bytes hloop
    have hkept := h.kept (by simp [hloop])
    have hsize := h.size
    rw [hloop] at hkept hsize
    simp only [inRead] at hkept hsize
    have hcount : s.countRead kind bytes =
        { s with sent := (s.countRead kind bytes).sent, received := (s.countRead kind bytes).received } := by
      cases kind <;> rfl
    split_ifs at hresume with hempty
    · obtain rfl := Option.some.inj hresume
      exact Streaming.nextRead (by simpa [hempty.2] using hkept) h.sizes
    · obtain rfl := Option.some.inj hresume
      rw [hcount]
      refine Streaming.nextRead (by simpa using hkept) fun frame hframe => ?_
      rcases List.mem_append.1 hframe with hframe | hframe
      · exact h.sizes frame hframe
      · rw [List.mem_singleton.1 hframe]
        exact hsize
    · obtain rfl := Option.some.inj hresume
      rw [hcount]
      exact (h.write s.writer _ _).ended (by simp [hloop])
  · simp at hresume

/-! ## Writing -/

theorem Writing.ofStopped (h : s.writer.Sound) (hcut : s.writer.CutLast) (hrunning : s.running = false) : Writing s :=
  ⟨h, hcut, fun hr => absurd (hrunning.symm.trans hr) (by decide), fun hm => by simp [mayWrite, hrunning] at hm⟩

theorem Writing.ofWhole (h : s.writer.Sound) (hwhole : s.writer.Whole) (hawake : s.mayWrite = true → s.writer.Awake) :
    Writing s :=
  ⟨h, .inl hwhole, fun _ => hwhole, hawake⟩

theorem Writing.congr (h : Writing s) (hwriter : s'.writer = s.writer) (hrunning : s'.running = true → s.running = true)
    (hopen : s'.isOpen = true → s.isOpen = true) : Writing s' := by
  refine ⟨by rw [hwriter]; exact h.sound, by rw [hwriter]; exact h.cut, fun hr => ?_, fun hm => ?_⟩
  · rw [hwriter]
    exact h.whole (hrunning hr)
  · rw [hwriter]
    rw [mayWrite, Bool.and_eq_true] at hm
    exact h.awake (by rw [mayWrite, hrunning hm.1, hopen hm.2]; rfl)

theorem Writing.stop (h : Writing s) : Writing s.stop :=
  .ofStopped (by rw [stop_writer]; exact h.sound) (by rw [stop_writer]; exact h.cut) (stop_running s)

theorem handleInput_cases (kind : RelayKind) (s : RelaySession) (payload : Json) :
    s.takes (.input payload) = [] ∧ s.handleInput kind payload = s ∨
      ∃ data received, s.running = true ∧ s.takes (.input payload) = [data] ∧
        s.handleInput kind payload = { s with received := received, writer := s.writer.push data } := by
  by_cases hrunning : s.running = true
  · cases payload with
    | binary data tag =>
      by_cases hdata : data = []
      · exact .inl ⟨by simp [takes, hdata], by simp [RelaySession.handleInput, hdata]⟩
      · refine .inr ⟨data, if kind = .terminal then s.received + data.length else s.received, hrunning, ?_, ?_⟩
        · simp [takes, hrunning, hdata]
        · simp [RelaySession.handleInput, hrunning, hdata]
    | _ => exact .inl ⟨rfl, by simp [RelaySession.handleInput]⟩
  · refine .inl ⟨?_, by simp [RelaySession.handleInput, hrunning]⟩
    cases payload <;> simp [takes, hrunning]

theorem Writing.handleInput (h : Writing s) (payload : Json) : Writing (s.handleInput kind payload) := by
  rcases handleInput_cases kind s payload with ⟨-, heq⟩ | ⟨data, received, hrunning, -, heq⟩
  · rw [heq]
    exact h
  · rw [heq]
    exact .ofWhole (h.sound.push data) ((h.whole hrunning).push data) fun _ _ => h.sound.push_awake data

/-- a loop that leaves, or takes the next block, in a session that may or may not go on -/
theorem Writing.turned (h : Writing s) {w : SerialWriter UInt8} (hsound : w.Sound)
    (hwhole : s.writer.Whole → w.Whole) (hcut : s.writer.CutLast → w.CutLast)
    (hawake : s.mayWrite = true → w.Awake) (sent : ℕ) :
    Writing { s.findClosed kind with sent := sent, writer := w } := by
  rcases findClosed_cases kind s with heq | ⟨-, heq⟩
  · rw [heq]
    exact ⟨hsound, hcut h.cut, fun hr => hwhole (h.whole hr), hawake⟩
  · rw [heq]
    exact .ofStopped hsound (hcut h.cut) (stop_running s)

theorem Writing.beginWrite (h : Writing s) {i : ℕ} (hbegin : s.beginWrite kind i = some s') : Writing s' := by
  obtain ⟨w, hw, rfl⟩ := Option.map_eq_some_iff.1 hbegin
  refine h.turned (h.sound.begin hw) (fun hwhole => hwhole.begin hw) (fun hcut => ?_) (fun hm => ?_) _
  · exact hcut.begin hw
  · rw [hm] at hw
    exact h.sound.begin_awake hw

theorem Writing.putWrite (h : Writing s) {i n : ℕ} (hput : s.putWrite i n = some s') : Writing s' := by
  rw [RelaySession.putWrite] at hput
  split_ifs at hput
  obtain ⟨w, hw, rfl⟩ := Option.map_eq_some_iff.1 hput
  exact ⟨h.sound.put hw, h.cut.put hw, fun hr => (h.whole hr).put hw, fun hm => SerialWriter.put_awake (h.awake hm) hw⟩

theorem Writing.finishWrite (h : Writing s) {i : ℕ} (hfinish : s.finishWrite kind i = some s') : Writing s' := by
  obtain ⟨w, hw, rfl⟩ := Option.map_eq_some_iff.1 hfinish
  refine h.turned (h.sound.finish hw) (fun hwhole => hwhole.finish hw) (fun hcut => ?_) (fun hm => ?_) _
  · exact hcut.finish hw
  · rw [hm] at hw
    exact h.sound.finish_awake hw

theorem Writing.failWrite (h : Writing s) {i : ℕ} (hfail : s.failWrite i = some s') : Writing s' := by
  obtain ⟨w, hw, rfl⟩ := Option.map_eq_some_iff.1 hfail
  exact .ofStopped (h.sound.fail hw) (h.sound.fail_cutLast h.cut hw) (stop_running s)

/-! ## The shell -/

/-- a session that runs has not signalled its shell, and one that was stopped has done so once -/
def Shell (pid : ℤ) (s : RelaySession) : Prop :=
  s.running = true ∧ s.pid = pid ∧ s.signalled = [] ∨
    s.running = false ∧ s.isOpen = false ∧ s.pid = 0 ∧ s.signalled = if pid = 0 then [] else [pid]

theorem Shell.stop {pid : ℤ} (h : Shell pid s) : Shell pid s.stop := by
  rw [stop_eq]
  rcases h with ⟨-, rfl, hsignalled⟩ | ⟨-, -, hpid, hsignalled⟩
  · refine .inr ⟨rfl, rfl, rfl, ?_⟩
    by_cases hpid : s.pid = 0
    · simp [hpid, hsignalled]
    · simp [hpid, hsignalled]
  · exact .inr ⟨rfl, rfl, rfl, by simpa [hpid] using hsignalled⟩

theorem Shell.congr {pid : ℤ} (h : Shell pid s) (hrunning : s'.running = s.running)
    (hopen : s'.isOpen = true → s.isOpen = true) (hpid : s'.pid = s.pid) (hsignalled : s'.signalled = s.signalled) :
    Shell pid s' := by
  rcases h with ⟨h1, h2, h3⟩ | ⟨h1, h2, h3, h4⟩
  · exact .inl ⟨hrunning.trans h1, hpid.trans h2, hsignalled.trans h3⟩
  · refine .inr ⟨hrunning.trans h1, ?_, hpid.trans h3, hsignalled.trans h4⟩
    by_contra hne
    simp [hopen (by simpa using hne)] at h2

theorem Shell.findClosed {pid : ℤ} (h : Shell pid s) : Shell pid (s.findClosed kind) := by
  rcases findClosed_cases kind s with heq | ⟨-, heq⟩
  · rw [heq]
    exact h
  · rw [heq]
    exact h.stop

/-! ## Every event -/

structure Relaying (kind : RelayKind) (pid : ℤ) (s : RelaySession) : Prop where
  streaming : Streaming kind s
  writing : Writing s
  shell : Shell pid s

theorem relaying_started (kind : RelayKind) (pid : ℤ) (hpid : kind = .terminal → 0 < pid) :
    Relaying kind (if kind = .terminal then pid else 0) (started kind pid) := by
  rw [started_eq kind pid hpid]
  refine ⟨⟨⟨[], rfl, .inl rfl⟩, by simp, by simp [inRead], by simp, by simp⟩, ?_, .inl ⟨rfl, rfl, rfl⟩⟩
  exact .ofWhole SerialWriter.sound_init (by simp [SerialWriter.Whole]) (by simp [SerialWriter.Awake])

theorem readReady_frame {n : ℕ} (h : s.readReady kind n = some s') :
    s'.running = s.running ∧ s'.isOpen = s.isOpen ∧ s'.pid = s.pid ∧ s'.signalled = s.signalled ∧
      s'.writer = s.writer := by
  rw [readReady] at h
  simp only at h
  split_ifs at h <;> obtain rfl := Option.some.inj h <;> exact ⟨rfl, rfl, rfl, rfl, rfl⟩

/-- a read loop that is resumed goes on, or stops the session -/
theorem resumeRead_frame {connected : Bool} (h : s.resumeRead kind connected = some s') :
    s'.writer = s.writer ∧
      (s'.running = s.running ∧ s'.isOpen = s.isOpen ∧ s'.pid = s.pid ∧ s'.signalled = s.signalled ∨
        s'.running = s.stop.running ∧ s'.isOpen = s.stop.isOpen ∧ s'.pid = s.stop.pid ∧
          s'.signalled = s.stop.signalled) := by
  rw [resumeRead] at h
  split at h
  · obtain rfl := Option.some.inj h
    exact ⟨rfl, .inl ⟨rfl, rfl, rfl, rfl⟩⟩
  · obtain rfl := Option.some.inj h
    exact ⟨stop_writer s, .inr ⟨rfl, rfl, rfl, rfl⟩⟩
  · split_ifs at h <;> obtain rfl := Option.some.inj h
    · exact ⟨rfl, .inl ⟨rfl, rfl, rfl, rfl⟩⟩
    · cases kind <;> exact ⟨rfl, .inl ⟨rfl, rfl, rfl, rfl⟩⟩
    · cases kind <;> exact ⟨by rw [stop_eq]; rfl, .inr (by simp [stop_eq, countRead])⟩
  · simp at h

/-- **One event.** -/
theorem Relaying.step {pid : ℤ} (h : Relaying kind pid s) (e : RelayEvent) (hstep : step kind s e = some s') :
    Relaying kind pid s' := by
  cases e with
  | input payload =>
    obtain rfl := Option.some.inj hstep
    refine ⟨?_, h.writing.handleInput payload, ?_⟩
    · rcases handleInput_cases kind s payload with ⟨-, heq⟩ | ⟨data, received, -, -, heq⟩
      · rw [heq]
        exact h.streaming
      · rw [heq]
        exact h.streaming.write _ _ _
    · rcases handleInput_cases kind s payload with ⟨-, heq⟩ | ⟨data, received, -, -, heq⟩
      · rw [heq]
        exact h.shell
      · rw [heq]
        exact h.shell.congr rfl id rfl rfl
  | beginWrite i =>
    refine ⟨?_, h.writing.beginWrite hstep, ?_⟩
    · obtain ⟨w, -, rfl⟩ := Option.map_eq_some_iff.1 hstep
      exact h.streaming.findClosed.write _ _ _
    · obtain ⟨w, -, rfl⟩ := Option.map_eq_some_iff.1 hstep
      exact h.shell.findClosed.congr rfl id rfl rfl
  | putWrite i n =>
    refine ⟨?_, h.writing.putWrite hstep, ?_⟩
    · rw [RelaySession.step, RelaySession.putWrite] at hstep
      split_ifs at hstep
      obtain ⟨w, -, rfl⟩ := Option.map_eq_some_iff.1 hstep
      exact h.streaming.write _ _ _
    · rw [RelaySession.step, RelaySession.putWrite] at hstep
      split_ifs at hstep
      obtain ⟨w, -, rfl⟩ := Option.map_eq_some_iff.1 hstep
      exact h.shell.congr rfl id rfl rfl
  | finishWrite i =>
    refine ⟨?_, h.writing.finishWrite hstep, ?_⟩
    · obtain ⟨w, -, rfl⟩ := Option.map_eq_some_iff.1 hstep
      exact h.streaming.findClosed.write _ _ _
    · obtain ⟨w, -, rfl⟩ := Option.map_eq_some_iff.1 hstep
      exact h.shell.findClosed.congr rfl id rfl rfl
  | failWrite i =>
    refine ⟨?_, h.writing.failWrite hstep, ?_⟩
    · obtain ⟨w, -, rfl⟩ := Option.map_eq_some_iff.1 hstep
      exact h.streaming.stop.write _ _ _
    · obtain ⟨w, -, rfl⟩ := Option.map_eq_some_iff.1 hstep
      exact h.shell.stop.congr rfl id rfl rfl
  | readReady n =>
    obtain ⟨hrunning, hopen, hpid, hsignalled, hwriter⟩ := readReady_frame hstep
    refine ⟨h.streaming.readReady hstep, ?_, ?_⟩
    · exact h.writing.congr hwriter (fun hr => hrunning ▸ hr) fun ho => hopen ▸ ho
    · exact h.shell.congr hrunning (fun ho => hopen ▸ ho) hpid hsignalled
  | resumeRead connected =>
    obtain ⟨hwriter, ⟨hrunning, hopen, hpid, hsignalled⟩ | ⟨hrunning, hopen, hpid, hsignalled⟩⟩ := resumeRead_frame hstep
    · refine ⟨h.streaming.resumeRead hstep, ?_, ?_⟩
      · exact h.writing.congr hwriter (fun hr => hrunning ▸ hr) fun ho => hopen ▸ ho
      · exact h.shell.congr hrunning (fun ho => hopen ▸ ho) hpid hsignalled
    · refine ⟨h.streaming.resumeRead hstep, ?_, ?_⟩
      · exact h.writing.stop.congr (hwriter.trans (stop_writer s).symm) (fun hr => hrunning ▸ hr) fun ho => hopen ▸ ho
      · exact h.shell.stop.congr hrunning (fun ho => hopen ▸ ho) hpid hsignalled
  | stop =>
    obtain rfl := Option.some.inj hstep
    exact ⟨h.streaming.stop, h.writing.stop, h.shell.stop⟩
  | close =>
    obtain rfl := Option.some.inj hstep
    exact ⟨h.streaming.close, h.writing.congr rfl id (by simp [RelaySession.close]),
      h.shell.congr rfl (by simp [RelaySession.close]) rfl rfl⟩
  | say bytes =>
    rw [RelaySession.step] at hstep
    split_ifs at hstep
    obtain rfl := Option.some.inj hstep
    refine ⟨?_, h.writing.congr rfl id id, h.shell.congr rfl id rfl rfl⟩
    obtain ⟨lost, hbytes, hlost⟩ := h.streaming.bytes
    refine ⟨⟨lost, ?_, hlost⟩, h.streaming.sizes, h.streaming.size, h.streaming.closed, h.streaming.reading⟩
    rw [← List.append_assoc, hbytes]
  | hangUp =>
    obtain rfl := Option.some.inj hstep
    exact ⟨⟨h.streaming.bytes, h.streaming.sizes, h.streaming.size, h.streaming.closed, h.streaming.reading⟩,
      h.writing.congr rfl id id, h.shell.congr rfl id rfl rfl⟩

theorem relaying (kind : RelayKind) (pid : ℤ) (hpid : kind = .terminal → 0 < pid) (events : List RelayEvent) :
    Relaying kind (if kind = .terminal then pid else 0) (run kind (started kind pid) events) :=
  Guarded.always (fun _ e _ h hstep => h.step e hstep) _ events (relaying_started kind pid hpid)

/-- an event accepts what the session takes of it -/
theorem accepted_step (e : RelayEvent) (hstep : step kind s e = some s') :
    s'.writer.accepted = s.writer.accepted ++ s.takes e := by
  cases e with
  | input payload =>
    obtain rfl := Option.some.inj hstep
    rcases handleInput_cases kind s payload with ⟨htakes, heq⟩ | ⟨data, received, -, htakes, heq⟩
    · rw [heq, htakes, List.append_nil]
    · rw [heq, htakes]
      exact (SerialWriter.push_accepted _ _).1
  | beginWrite i =>
    obtain ⟨w, hw, rfl⟩ := Option.map_eq_some_iff.1 hstep
    simpa [takes] using (SerialWriter.begin_accepted hw).1
  | putWrite i n =>
    rw [RelaySession.step, RelaySession.putWrite] at hstep
    split_ifs at hstep
    obtain ⟨w, hw, rfl⟩ := Option.map_eq_some_iff.1 hstep
    simpa [takes] using SerialWriter.put_accepted hw
  | finishWrite i =>
    obtain ⟨w, hw, rfl⟩ := Option.map_eq_some_iff.1 hstep
    simpa [takes] using (SerialWriter.finish_accepted hw).1
  | failWrite i =>
    obtain ⟨w, hw, rfl⟩ := Option.map_eq_some_iff.1 hstep
    simpa [takes] using (SerialWriter.fail_accepted hw).1
  | readReady n =>
    simp [takes, (readReady_frame hstep).2.2.2.2]
  | resumeRead connected =>
    simp [takes, (resumeRead_frame hstep).1]
  | stop =>
    obtain rfl := Option.some.inj hstep
    simp [takes]
  | say bytes =>
    rw [RelaySession.step] at hstep
    split_ifs at hstep
    obtain rfl := Option.some.inj hstep
    simp [takes]
  | _ =>
    obtain rfl := Option.some.inj hstep
    exact (List.append_nil _).symm

theorem accepted_run (s : RelaySession) (events : List RelayEvent) :
    (run kind s events).writer.accepted = s.writer.accepted ++ taken kind s events := by
  induction events generalizing s with
  | nil => exact (List.append_nil _).symm
  | cons e events ih =>
    rw [run, Guarded.run, Run.run_cons, ih, taken]
    rcases hstep : step kind s e with _ | s'
    · have htakes : s.takes e = [] := by
        cases e with
        | input payload => simp [step] at hstep
        | _ => rfl
      rw [Guarded.step_of_none hstep, htakes]
      rfl
    · rw [Guarded.step_of_some hstep, accepted_step e hstep, List.append_assoc]

/-! ## Runs -/

/-- **What a session relays, in every run.** -/
theorem relayed (kind : RelayKind) (pid : ℤ) (hpid : kind = .terminal → 0 < pid) (events : List RelayEvent) :
    let s := run kind (started kind pid) events
    let input := taken kind (started kind pid) events
    s.writer.output <+: input.flatten ∧
      (s.running = true → s.isOpen = true → s.writer.loops = [] → s.writer.output = input.flatten) ∧
      s.frames.flatten <+: s.said ∧
      (∀ frame ∈ s.frames, frame.length ≤ kind.bufferSize) ∧
      (s.running = true → s.isOpen = true → s.readLoop ≠ .ended) ∧
      s.writer.loops.length ≤ 1 ∧
      s.signalled = if s.running = true ∨ kind = .proxy then [] else [pid] := by
  intro s input
  have h : Relaying kind _ s := relaying kind pid hpid events
  have haccepted : s.writer.accepted = input := by
    have hstart : (started kind pid).writer.accepted = [] := by rw [started_eq kind pid hpid]
    rw [accepted_run, hstart, List.nil_append]
  obtain ⟨lost, hbytes, -⟩ := h.streaming.bytes
  refine ⟨?_, fun hrunning hopen hloops => ?_, ?_, h.streaming.sizes, h.streaming.reading, h.writing.sound.one, ?_⟩
  · rw [← haccepted]
    exact h.writing.sound.output_prefix h.writing.cut
  · have hqueue : s.writer.queue = [] := by
      by_contra hne
      exact h.writing.awake (by rw [mayWrite, hrunning, hopen]; rfl) hne hloops
    rw [← haccepted]
    exact h.writing.sound.output_eq (h.writing.whole hrunning) hloops hqueue
  · rw [← hbytes, List.append_assoc, List.append_assoc]
    exact List.prefix_append _ _
  · rcases h.shell with ⟨hrunning, -, hsignalled⟩ | ⟨hrunning, -, -, hsignalled⟩
    · rw [hsignalled, if_pos (.inl hrunning)]
    · cases kind with
      | proxy => simpa using hsignalled
      | terminal => simpa [hrunning, (hpid rfl).ne'] using hsignalled

/-- two bytes come in and are written, two others are said and streamed -/
theorem relayed_terminal :
    let events := [RelayEvent.say [104, 105], .resumeRead true, .readReady 9, .resumeRead true,
      .input (.binary [108, 115] none), .beginWrite 0, .putWrite 0 2, .finishWrite 0]
    let s := run .terminal (started .terminal 7) events
    s.frames = [[104, 105]] ∧ s.writer.output = [108, 115] ∧ s.frames.flatten <+: s.said ∧
      s.writer.output <+: (taken .terminal (started .terminal 7) events).flatten := by
  intro events s
  have hrelayed := relayed .terminal 7 (by simp) events
  exact ⟨by decide, by decide, hrelayed.2.2.1, hrelayed.1⟩

/-! ## Without disturbance -/

/-- nobody stops the session, the socket stays as it is, nothing fails, and the client stays connected -/
def Undisturbed : RelayEvent → Prop
  | .failWrite _ | .resumeRead false | .stop | .close => False
  | _ => True

/-- nothing is lost, and the loop ends when all is read and the other side says nothing more -/
structure Flowing (s : RelaySession) : Prop where
  bytes : s.frames.flatten ++ inRead s.readLoop ++ s.pipe = s.said
  closed : s.mayWrite = false → s.readLoop = .ended
  drained : s.readLoop = .queued none ∨ s.readLoop = .ended → s.pipe = [] ∧ s.hungUp = true

theorem Flowing.stop (h : Flowing s) (hloop : s.readLoop = .ended) : Flowing s.stop := by
  rw [stop_eq]
  refine ⟨?_, fun _ => by simp [hloop], fun _ => h.drained (.inr hloop)⟩
  simpa [hloop] using h.bytes

theorem Flowing.findClosed (h : Flowing s) : Flowing (s.findClosed kind) := by
  rcases findClosed_cases kind s with heq | ⟨hclosed, heq⟩
  · rw [heq]
    exact h
  · rw [heq]
    exact h.stop (h.closed (by simp [mayWrite, hclosed]))

theorem Flowing.write (h : Flowing s) (w : SerialWriter UInt8) (sent received : ℕ) :
    Flowing { s with writer := w, sent := sent, received := received } :=
  ⟨h.bytes, h.closed, h.drained⟩

/-- the loop goes on in a session that runs -/
theorem Flowing.nextRead (hbytes : s.frames.flatten ++ s.pipe = s.said) (hmay : s.mayWrite = true) :
    Flowing s.nextRead := by
  have hloop : s.nextRead.readLoop = .waiting := by
    rw [mayWrite] at hmay
    simp [RelaySession.nextRead, hmay]
  refine ⟨?_, fun hnot => ?_, by simp [hloop]⟩
  · rw [hloop]
    change s.frames.flatten ++ [] ++ s.pipe = s.said
    simpa using hbytes
  · exact absurd (hmay.symm.trans hnot) (by decide)

theorem Flowing.resumeRead (h : Flowing s) (hresume : s.resumeRead kind true = some s') : Flowing s' := by
  have hmay : s.readLoop ≠ .ended → s.mayWrite = true := by
    intro hloop
    by_contra hnot
    exact hloop (h.closed (by simpa using hnot))
  have hbytes := h.bytes
  rw [RelaySession.resumeRead] at hresume
  split at hresume
  · rename_i hloop
    obtain rfl := Option.some.inj hresume
    exact .nextRead (by simpa [hloop, inRead] using hbytes) (hmay (by simp [hloop]))
  · rename_i hloop
    obtain rfl := Option.some.inj hresume
    rw [stop_eq]
    refine ⟨?_, fun _ => rfl, fun _ => h.drained (.inl hloop)⟩
    simpa [hloop, inRead] using hbytes
  · rename_i bytes hloop
    have hgo := hmay (by simp [hloop])
    simp only [hloop, inRead] at hbytes
    split_ifs at hresume with hempty
    · obtain rfl := Option.some.inj hresume
      exact .nextRead (by simpa [hempty.2] using hbytes) hgo
    · obtain rfl := Option.some.inj hresume
      cases kind <;> exact .nextRead (by simpa [countRead] using hbytes) hgo
    · simp at *
  · simp at hresume

theorem Flowing.step (h : Flowing s) (e : RelayEvent) (he : Undisturbed e) (hstep : step kind s e = some s') :
    Flowing s' := by
  cases e with
  | input payload =>
    obtain rfl := Option.some.inj hstep
    rcases handleInput_cases kind s payload with ⟨-, heq⟩ | ⟨data, received, -, -, heq⟩
    · rw [heq]
      exact h
    · rw [heq]
      exact h.write _ _ _
  | beginWrite i =>
    obtain ⟨w, -, rfl⟩ := Option.map_eq_some_iff.1 hstep
    exact h.findClosed.write _ _ _
  | putWrite i n =>
    rw [RelaySession.step, RelaySession.putWrite] at hstep
    split_ifs at hstep
    obtain ⟨w, -, rfl⟩ := Option.map_eq_some_iff.1 hstep
    exact h.write _ _ _
  | finishWrite i =>
    obtain ⟨w, -, rfl⟩ := Option.map_eq_some_iff.1 hstep
    exact h.findClosed.write _ _ _
  | readReady n =>
    have hbytes := h.bytes
    rw [RelaySession.step, RelaySession.readReady] at hstep
    simp only at hstep
    split_ifs at hstep with hw hpipe hup
    · obtain rfl := Option.some.inj hstep
      refine ⟨?_, fun hnot => absurd (h.closed hnot) (by simp [hw]), by simp⟩
      simpa [hw, inRead] using hbytes
    · obtain rfl := Option.some.inj hstep
      refine ⟨?_, fun hnot => absurd (h.closed hnot) (by simp [hw]), fun _ => ⟨by simpa using hpipe, hup⟩⟩
      simpa [hw, inRead] using hbytes
  | resumeRead connected =>
    cases connected with
    | false => exact he.elim
    | true => exact h.resumeRead hstep
  | say bytes =>
    rw [RelaySession.step] at hstep
    split_ifs at hstep with hup
    obtain rfl := Option.some.inj hstep
    refine ⟨?_, h.closed, fun hdone => absurd (h.drained hdone).2 hup⟩
    rw [← List.append_assoc, h.bytes]
  | hangUp =>
    obtain rfl := Option.some.inj hstep
    exact ⟨h.bytes, h.closed, fun hdone => ⟨(h.drained hdone).1, rfl⟩⟩
  | _ => exact he.elim

/-- **A session that nothing disturbs streams all that the other side says**: its read loop ends only when it has. -/
theorem all_streamed (kind : RelayKind) (pid : ℤ) (hpid : kind = .terminal → 0 < pid) (events : List RelayEvent)
    (hevents : ∀ e ∈ events, Undisturbed e) :
    let s := run kind (started kind pid) events
    s.frames.flatten ++ inRead s.readLoop ++ s.pipe = s.said ∧
      (s.readLoop = .ended → s.frames.flatten = s.said ∧ s.hungUp = true) := by
  intro s
  have hstart : Flowing (started kind pid) := by
    rw [started_eq kind pid hpid]
    exact ⟨rfl, by simp [mayWrite], by simp⟩
  have h : Flowing s := Guarded.invariant_of_mem (fun _ e _ h he hstep => h.step e he hstep) _ events hstart hevents
  refine ⟨h.bytes, fun hended => ?_⟩
  obtain ⟨hpipe, hup⟩ := h.drained (.inr hended)
  have hbytes := h.bytes
  rw [hended, hpipe] at hbytes
  exact ⟨by simpa [inRead] using hbytes, hup⟩

theorem all_streamed_terminal :
    let events := [.say [104, 105], .resumeRead true, .readReady 9, .hangUp, .resumeRead true, .readReady 0, .resumeRead true]
    (∀ e ∈ events, Undisturbed e) ∧ (run .terminal (started .terminal 7) events).frames.flatten = [104, 105] := by
  refine ⟨by simp [Undisturbed], ?_⟩
  have hended := (all_streamed .terminal 7 (by simp)
    [.say [104, 105], .resumeRead true, .readReady 9, .hangUp, .resumeRead true, .readReady 0, .resumeRead true]
    (by simp [Undisturbed])).2
  exact (hended (by decide)).1

/-! ## After stop -/

/-- nothing is written and nobody signalled any more; the read that had ended may still be streamed -/
structure Quiet (s₀ s : RelaySession) : Prop where
  running : s.running = false
  isOpen : s.isOpen = false
  pid : s.pid = 0
  signalled : s.signalled = s₀.signalled
  output : s.writer.output = s₀.writer.output
  accepted : s.writer.accepted = s₀.writer.accepted
  frames : s.readLoop = s₀.readLoop ∧ s.frames = s₀.frames ∨
    s.readLoop = .ended ∧
      (s.frames = s₀.frames ∨ ∃ bytes, s₀.readLoop = .queued (some bytes) ∧ s.frames = s₀.frames ++ [bytes])

theorem Quiet.stop {s₀ : RelaySession} (h : Quiet s₀ s) (hwait : s₀.readLoop ≠ .waiting) : Quiet s₀ s.stop := by
  have hread : s.readLoop ≠ .waiting := by
    rcases h.frames with ⟨hloop, -⟩ | ⟨hloop, -⟩
    · rwa [hloop]
    · simp [hloop]
  rw [stop_eq]
  refine ⟨rfl, rfl, rfl, ?_, h.output, h.accepted, ?_⟩
  · simpa [h.pid] using h.signalled
  · simpa [hread] using h.frames

theorem Quiet.write {s₀ : RelaySession} (h : Quiet s₀ s) {w : SerialWriter UInt8}
    (hw : w.accepted = s.writer.accepted ∧ w.output = s.writer.output) (sent : ℕ) :
    Quiet s₀ { s with writer := w, sent := sent } :=
  ⟨h.running, h.isOpen, h.pid, h.signalled, hw.2.trans h.output, hw.1.trans h.accepted, h.frames⟩

/-- a loop that is over leaves the frames, or adds the read that had ended -/
theorem Quiet.ended {s₀ : RelaySession} (h : Quiet s₀ s) (hloop : s.readLoop ≠ .ended) (hrunning : s'.running = false)
    (hopen : s'.isOpen = false) (hpid : s'.pid = 0) (hsignalled : s'.signalled = s.signalled)
    (hwriter : s'.writer = s.writer) (hended : s'.readLoop = .ended)
    (hframes : s'.frames = s.frames ∨ ∃ bytes, s.readLoop = .queued (some bytes) ∧ s'.frames = s.frames ++ [bytes]) :
    Quiet s₀ s' := by
  obtain ⟨hsame, hkept⟩ := h.frames.resolve_right fun hover => hloop hover.1
  refine ⟨hrunning, hopen, hpid, hsignalled.trans h.signalled, by rw [hwriter, h.output],
    by rw [hwriter, h.accepted], .inr ⟨hended, ?_⟩⟩
  rw [← hsame, ← hkept]
  exact hframes

theorem Quiet.resumeRead {s₀ : RelaySession} (h : Quiet s₀ s) {connected : Bool}
    (hresume : s.resumeRead kind connected = some s') : Quiet s₀ s' := by
  have hrunning := h.running
  have hopen := h.isOpen
  have hpid := h.pid
  rw [RelaySession.resumeRead] at hresume
  split at hresume
  · rename_i hloop
    obtain rfl := Option.some.inj hresume
    exact h.ended (by simp [hloop]) hrunning hopen hpid rfl rfl (by simp [nextRead, hrunning]) (.inl rfl)
  · rename_i hloop
    obtain rfl := Option.some.inj hresume
    rw [stop_eq]
    exact h.ended (by simp [hloop]) rfl rfl rfl (by simp [hpid]) rfl rfl (.inl rfl)
  · rename_i bytes hloop
    split_ifs at hresume
    · obtain rfl := Option.some.inj hresume
      exact h.ended (by simp [hloop]) hrunning hopen hpid rfl rfl (by simp [nextRead, hrunning]) (.inl rfl)
    · obtain rfl := Option.some.inj hresume
      cases kind <;> exact h.ended (by simp [hloop]) hrunning hopen hpid rfl rfl
        (by simp [nextRead, countRead, hrunning]) (.inr ⟨bytes, hloop, rfl⟩)
    · obtain rfl := Option.some.inj hresume
      rw [stop_eq]
      cases kind <;> exact h.ended (by simp [hloop]) rfl rfl rfl (by simp [countRead, hpid]) rfl rfl (.inl rfl)
  · simp at hresume

theorem findClosed_of_stopped (hrunning : s.running = false) : s.findClosed kind = s := by
  simp [RelaySession.findClosed, hrunning]

theorem Quiet.step {s₀ : RelaySession} (hwait : s₀.readLoop ≠ .waiting) (h : Quiet s₀ s) (e : RelayEvent)
    (hstep : step kind s e = some s') : Quiet s₀ s' := by
  have hread : s.readLoop ≠ .waiting := by
    rcases h.frames with ⟨hloop, -⟩ | ⟨hloop, -⟩
    · rwa [hloop]
    · simp [hloop]
  have hclosed : s.findClosed kind = s := findClosed_of_stopped h.running
  cases e with
  | input payload =>
    obtain rfl := Option.some.inj hstep
    rcases handleInput_cases kind s payload with ⟨-, heq⟩ | ⟨data, received, hrunning, -⟩
    · rw [heq]
      exact h
    · exact absurd (h.running.symm.trans hrunning) (by decide)
  | beginWrite i =>
    obtain ⟨w, hw, rfl⟩ := Option.map_eq_some_iff.1 hstep
    rw [hclosed]
    exact h.write (SerialWriter.begin_accepted hw) s.sent
  | putWrite i n => simp [RelaySession.step, RelaySession.putWrite, h.isOpen] at hstep
  | finishWrite i =>
    obtain ⟨w, hw, rfl⟩ := Option.map_eq_some_iff.1 hstep
    rw [hclosed]
    exact h.write (SerialWriter.finish_accepted hw) _
  | failWrite i =>
    obtain ⟨w, hw, rfl⟩ := Option.map_eq_some_iff.1 hstep
    exact (h.stop hwait).write (by simpa using SerialWriter.fail_accepted hw) _
  | readReady n => simp [RelaySession.step, RelaySession.readReady, hread] at hstep
  | resumeRead connected => exact h.resumeRead hstep
  | stop =>
    obtain rfl := Option.some.inj hstep
    exact h.stop hwait
  | close =>
    obtain rfl := Option.some.inj hstep
    refine ⟨h.running, rfl, h.pid, h.signalled, h.output, h.accepted, ?_⟩
    simpa [RelaySession.close, hread] using h.frames
  | say bytes =>
    rw [RelaySession.step] at hstep
    split_ifs at hstep
    obtain rfl := Option.some.inj hstep
    exact ⟨h.running, h.isOpen, h.pid, h.signalled, h.output, h.accepted, h.frames⟩
  | hangUp =>
    obtain rfl := Option.some.inj hstep
    exact ⟨h.running, h.isOpen, h.pid, h.signalled, h.output, h.accepted, h.frames⟩

theorem stop_ne_waiting (s : RelaySession) : s.stop.readLoop ≠ .waiting := by
  rw [stop_eq]
  change (if s.readLoop = .waiting then ReadLoop.queued none else s.readLoop) ≠ .waiting
  split_ifs with hw
  · simp
  · exact hw

theorem quiet_run (s : RelaySession) (events : List RelayEvent) : Quiet s.stop (run kind s.stop events) := by
  have hstart : Quiet s.stop s.stop := by
    rw [stop_eq]
    exact ⟨rfl, rfl, rfl, rfl, rfl, rfl, .inl ⟨rfl, rfl⟩⟩
  exact Guarded.always (fun _ e _ h hstep => h.step (stop_ne_waiting s) e hstep) _ events hstart

/-- **After `stop`** nothing reaches the other side and nobody is signalled, whatever happens, and at most the read that
had ended before is streamed. -/
theorem stopped_quiet (kind : RelayKind) (s : RelaySession) (events : List RelayEvent) :
    let s' := run kind s.stop events
    s'.writer.output = s.writer.output ∧ s'.writer.accepted = s.writer.accepted ∧ s'.signalled = s.stop.signalled ∧
      (s'.frames = s.frames ∨ ∃ bytes, s.readLoop = .queued (some bytes) ∧ s'.frames = s.frames ++ [bytes]) := by
  intro s'
  have h : Quiet s.stop s' := quiet_run s events
  have hframes : s.stop.frames = s.frames := by rw [stop_eq]
  refine ⟨by rw [h.output, stop_writer], by rw [h.accepted, stop_writer], h.signalled, ?_⟩
  rcases h.frames with ⟨-, hsame⟩ | ⟨-, hsame | ⟨bytes, hloop, hmore⟩⟩
  · exact .inl (hsame.trans hframes)
  · exact .inl (hsame.trans hframes)
  · refine .inr ⟨bytes, ?_, by rw [hmore, hframes]⟩
    rw [stop_eq] at hloop
    simp only at hloop
    split_ifs at hloop with hw
    · simp at hloop
    · exact hloop

/-! ## Release -/

/-- what the loops do by themselves once the socket or descriptor is closed -/
def Completion : RelayEvent → Prop
  | .beginWrite _ | .failWrite _ | .resumeRead _ => True
  | _ => False

/-- no coroutine of the session is there -/
def Released (s : RelaySession) : Prop := s.writer.loops = [] ∧ (s.readLoop = .idle ∨ s.readLoop = .ended)

structure Halted (s : RelaySession) : Prop where
  running : s.running = false
  isOpen : s.isOpen = false
  readLoop : s.readLoop ≠ .waiting

theorem Quiet.halted {s₀ : RelaySession} (h : Quiet s₀ s) (hwait : s₀.readLoop ≠ .waiting) : Halted s := by
  refine ⟨h.running, h.isOpen, ?_⟩
  rcases h.frames with ⟨hloop, -⟩ | ⟨hloop, -⟩
  · rwa [hloop]
  · simp [hloop]

theorem halted_stop (s : RelaySession) : Halted s.stop := ⟨stop_running s, rfl, stop_ne_waiting s⟩

theorem Halted.stop_readLoop (h : Halted s) : s.stop.readLoop = s.readLoop := by
  rw [stop_eq]
  exact if_neg h.readLoop

theorem leave_length {w : SerialWriter UInt8} {l : WriteLoop UInt8} (hl : w.loops[0]? = some l) :
    (w.leave 0).loops.length < w.loops.length := by
  have hlt : 0 < w.loops.length := by
    by_contra hnone
    rw [List.getElem?_eq_none (by omega)] at hl
    simp at hl
  simp [SerialWriter.leave, hlt]

/-- a write loop leaves with its next completion -/
theorem Halted.leaves (kind : RelayKind) (h : Halted s) {l : WriteLoop UInt8} (hl : s.writer.loops[0]? = some l) :
    ∃ e s', Completion e ∧ step kind s e = some s' ∧ Halted s' ∧ s'.readLoop = s.readLoop ∧
      s'.writer.loops.length < s.writer.loops.length := by
  have hmay : s.mayWrite = false := by simp [mayWrite, h.running]
  cases l with
  | spawned =>
    refine ⟨.beginWrite 0, { s with writer := s.writer.leave 0 }, trivial, ?_, ⟨h.running, h.isOpen, h.readLoop⟩, rfl,
      leave_length hl⟩
    simp [RelaySession.step, RelaySession.beginWrite, SerialWriter.begin, hl, hmay, SerialWriter.turn_false,
      findClosed_of_stopped h.running]
  | writing data written =>
    refine ⟨.failWrite 0, { s.stop with writer := (s.writer.give data written).leave 0 }, trivial, ?_,
      ⟨(halted_stop s).running, (halted_stop s).isOpen, (halted_stop s).readLoop⟩, h.stop_readLoop, leave_length hl⟩
    simp [RelaySession.step, RelaySession.failWrite, SerialWriter.fail, hl]

/-- the read loop ends when it is resumed -/
theorem Halted.ends (kind : RelayKind) (h : Halted s) (hloop : s.readLoop ≠ .idle ∧ s.readLoop ≠ .ended) :
    ∃ s', step kind s (.resumeRead false) = some s' ∧ Halted s' ∧ s'.readLoop = .ended ∧ s'.writer = s.writer := by
  have hrunning := h.running
  have hnext : s.nextRead.readLoop = .ended := by simp [nextRead, hrunning]
  have hended (t : RelaySession) : Halted { t.stop with readLoop := .ended } := ⟨stop_running t, rfl, by simp⟩
  rcases hread : s.readLoop with _ | _ | _ | (_ | bytes) | _
  · exact absurd hread hloop.1
  · refine ⟨s.nextRead, ?_, ⟨hrunning, h.isOpen, by simp [hnext]⟩, hnext, rfl⟩
    simp [RelaySession.step, RelaySession.resumeRead, hread]
  · exact absurd hread h.readLoop
  · refine ⟨{ s.stop with readLoop := .ended }, ?_, hended s, rfl, stop_writer s⟩
    simp [RelaySession.step, RelaySession.resumeRead, hread]
  · by_cases hempty : kind = .terminal ∧ bytes = []
    · refine ⟨s.nextRead, ?_, ⟨hrunning, h.isOpen, by simp [hnext]⟩, hnext, rfl⟩
      simp [RelaySession.step, RelaySession.resumeRead, hread, hempty]
    · refine ⟨{ (s.countRead kind bytes).stop with readLoop := .ended }, ?_, hended _, rfl, ?_⟩
      · simp [RelaySession.step, RelaySession.resumeRead, hread, hempty]
      · cases kind <;> exact stop_writer _
  · exact absurd hread hloop.2

/-- **A session that was stopped can always end**: its own completions release both coroutines. -/
theorem stopped_released (kind : RelayKind) (s : RelaySession) (events : List RelayEvent) :
    ∃ completions, (∀ e ∈ completions, Completion e) ∧ Released (run kind (run kind s.stop events) completions) := by
  have hstart : Halted (run kind s.stop events) := (quiet_run s events).halted (stop_ne_waiting s)
  refine Guarded.reaches Halted Released
    (fun s => s.writer.loops.length + if s.readLoop = .ended then 0 else 1) (fun s h hgoal => ?_) _ hstart
  rcases hl : s.writer.loops[0]? with _ | l
  · have hnone : s.writer.loops = [] := by simpa using hl
    have hloop : s.readLoop ≠ .idle ∧ s.readLoop ≠ .ended := by simpa [Released, hnone] using hgoal
    obtain ⟨s', hstep, hs', hended, hwriter⟩ := h.ends kind hloop
    refine ⟨.resumeRead false, s', trivial, hstep, hs', ?_⟩
    simp [hended, hwriter, hloop.2]
  · obtain ⟨e, s', he, hstep, hs', hloop, hless⟩ := h.leaves kind hl
    refine ⟨e, s', he, hstep, hs', ?_⟩
    simp only [hloop]
    omega

end Iotmp.RelaySession
