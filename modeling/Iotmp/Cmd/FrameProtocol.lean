/-
The frames of a streamed command (`cmd_stream_session.cpp`: `run`, `read_stdout`, `read_stderr`, `stop`).

`stop` notes that the server asked for the end, terminates the process and closes the pipes. `run` does not look at the
note: it sends its last frame when the three it joins have ended, and a read that had ended before the stop still sends
its bytes.

- `payload_injective`: the server can tell the frames apart.
- `Streaming`: the invariant. The frames of an output, the read that waits to be handled and the pipe hold all that was
  written, in order; the exit frame is sent when `run` ends.
- `Streaming.canEnd`: from any state with the pipes closed, a run leads to the exit frame.
- `frames_iff`: in every run the frames carry the outputs in order and the exit frame is the last; nothing follows a
  stop, however the run goes on, exactly if every stop came after the end of `run`.
Counterexample: `stop_sends_exit`.
-/
import Mathlib.Tactic
import Iotmp.Cmd.StreamSession

namespace Iotmp

theorem CmdFrame.payload_injective : Function.Injective CmdFrame.payload := by
  have hchannels : text "out" ≠ text "err" := by decide
  have hout : text "out" ≠ text "exit" := by decide
  have herr : text "err" ≠ text "exit" := by decide
  have hcode : ∀ code code' : Int32, code.toInt64 = code'.toInt64 → code = code' := fun code code' h =>
    Int32.toInt_inj.1 (by rw [← Int32.toInt_toInt64, h, Int32.toInt_toInt64])
  intro frame frame' h
  rcases frame with ⟨_ | _, bytes⟩ | ⟨code, _ | _⟩ <;> rcases frame' with ⟨_ | _, bytes'⟩ | ⟨code', _ | _⟩ <;>
    simp_all [payload] <;> exact hcode _ _ h

namespace CmdStream

/-! ## The frames -/

theorem carried_append (channel : Channel) (frames frames' : List CmdFrame) :
    carried channel (frames ++ frames') = carried channel frames ++ carried channel frames' := by
  induction frames with
  | nil => rfl
  | cons frame frames ih =>
    cases frame with
    | exit code timeout => exact ih
    | data channel' bytes => simp only [List.cons_append, carried, ih, List.append_assoc]

def isExit : CmdFrame → Bool
  | .exit _ _ => true
  | .data _ _ => false

/-- an exit frame is the last frame, so that there is one at most -/
def ExitLast (s : CmdStream) : Prop :=
  ∀ before code timeout after, s.sent = before ++ .exit code timeout :: after → after = []

/-- the frames carry what was written, in order; all of it, when a session that was not stopped is over -/
def InOrder (s : CmdStream) (channel : Channel) : Prop :=
  carried channel s.sent <+: s.written channel ∧
    (s.stoppedExternally = false → s.coordinator = .ended → carried channel s.sent = s.written channel)

/-- no frame follows a stop -/
def Quiet (s : CmdStream) (events : List StreamEvent) : Prop :=
  ∀ before after, events = before ++ .stop :: after → (run s events).sent = (run s before).sent

/-- a stop comes only when `run` is over -/
def LateStop (s : CmdStream) : StreamEvent → Prop
  | .stop => s.coordinator = .ended
  | _ => True

/-! ## The invariant -/

/-- what a read that has ended brings -/
def inFlight : AsyncRead → Bytes
  | .queued (some bytes) => bytes
  | _ => []

structure Streaming (s : CmdStream) : Prop where
  bytes : ∀ channel, carried channel s.sent ++ inFlight (s.reads channel) ++ s.pipe channel = s.written channel
  /-- a read ends without bytes at the end of the pipe, unless the session was stopped -/
  drained : ∀ channel, s.reads channel = .done ∨ s.reads channel = .queued none → s.stoppedExternally = false →
    s.hungUp channel = true ∧ s.pipe channel = []
  spawned : s.coordinator = .spawned → s.wait = .waiting ∧ ∀ channel, inFlight (s.reads channel) = []
  joined : s.coordinator = .ended → ∀ channel, s.reads channel = .done
  closed : s.outputsOpen = false → ∀ channel, s.coordinator = .joining → s.reads channel ≠ .waiting
  stopped : s.outputsOpen = !s.stoppedExternally
  killed : s.outputsOpen = false → s.wait ≠ .waiting ∨ s.exited.isSome = true
  finished : s.finished = true → s.coordinator ≠ .spawned ∧ s.wait = .done
  running : s.coordinator ≠ .ended → ∀ frame ∈ s.sent, isExit frame = false
  exitSent : s.coordinator = .ended →
    ∃ frames code timeout, s.sent = frames ++ [.exit code timeout] ∧ ∀ frame ∈ frames, isExit frame = false

theorem streaming_start (timeoutSeconds : ℤ) : Streaming (start timeoutSeconds) where
  bytes _ := rfl
  drained _ h := by simp [start] at h
  spawned _ := ⟨rfl, fun _ => rfl⟩
  joined h := by simp [start] at h
  closed h := by simp [start] at h
  stopped := rfl
  killed h := by simp [start] at h
  finished h := by simp [start] at h
  running _ := by simp [start]
  exitSent h := by simp [start] at h

variable {s s' : CmdStream}

theorem Streaming.inOrder (h : Streaming s) (channel : Channel) : InOrder s channel := by
  constructor
  · rw [← h.bytes channel, List.append_assoc]
    exact List.prefix_append _ _
  · intro hstopped hended
    have hdone := h.joined hended channel
    have hbytes := h.bytes channel
    rw [hdone, (h.drained channel (.inl hdone) hstopped).2] at hbytes
    simpa [inFlight] using hbytes

theorem Streaming.exitLast (h : Streaming s) : ExitLast s := by
  intro before code timeout after hsent
  by_cases hended : s.coordinator = .ended
  · obtain ⟨frames, code', timeout', hframes, hnone⟩ := h.exitSent hended
    rw [hframes] at hsent
    rcases List.eq_nil_or_concat after with hnil | ⟨after', last, hlast⟩
    · exact hnil
    · -- a frame behind it would be the exit frame, and it would be among those before
      exfalso
      rw [hlast, List.concat_eq_append, ← List.cons_append, ← List.append_assoc] at hsent
      have hfront := (List.append_inj' hsent rfl).1
      have hexit := hnone (.exit code timeout) (by rw [hfront]; simp)
      simp [isExit] at hexit
  · have hexit := h.running hended (.exit code timeout) (by rw [hsent]; simp)
    simp [isExit] at hexit

/-! ## What the events keep -/

/-- events beside the outputs: only the process may have exited -/
structure Beside (s s' : CmdStream) : Prop where
  written : s'.written = s.written
  pipe : s'.pipe = s.pipe
  hungUp : s'.hungUp = s.hungUp
  finished : s'.finished = s.finished
  stoppedExternally : s'.stoppedExternally = s.stoppedExternally
  outputsOpen : s'.outputsOpen = s.outputsOpen
  coordinator : s'.coordinator = s.coordinator
  reads : s'.reads = s.reads
  wait : s'.wait = s.wait
  sent : s'.sent = s.sent
  exited : s.exited.isSome = true → s'.exited.isSome = true

theorem Streaming.beside (h : Streaming s) (hb : Beside s s') : Streaming s' := by
  obtain ⟨hwritten, hpipe, hhung, hfinished, hstop, hopen, hcoordinator, hreads, hwait, hsent, hexited⟩ := hb
  constructor
  · rw [hwritten, hpipe, hreads, hsent]
    exact h.bytes
  · rw [hreads, hstop, hhung, hpipe]
    exact h.drained
  · rw [hcoordinator, hwait, hreads]
    exact h.spawned
  · rw [hcoordinator, hreads]
    exact h.joined
  · rw [hopen, hcoordinator, hreads]
    exact h.closed
  · rw [hopen, hstop]
    exact h.stopped
  · rw [hopen, hwait]
    exact fun hclosed => (h.killed hclosed).imp_right hexited
  · rw [hfinished, hcoordinator, hwait]
    exact h.finished
  · rw [hcoordinator, hsent]
    exact h.running
  · rw [hcoordinator, hsent]
    exact h.exitSent

theorem exits_beside {code : Int32} (hstep : s.exits code = some s') : Beside s s' := by
  unfold exits at hstep
  split_ifs at hstep
  obtain rfl := Option.some.inj hstep
  exact ⟨rfl, rfl, rfl, rfl, rfl, rfl, rfl, rfl, rfl, rfl, fun _ => rfl⟩

theorem beginWatch_beside (hstep : s.beginWatch = some s') : Beside s s' := by
  unfold beginWatch at hstep
  split_ifs at hstep
  obtain rfl := Option.some.inj hstep
  exact ⟨rfl, rfl, rfl, rfl, rfl, rfl, rfl, rfl, rfl, rfl, id⟩

theorem expire_beside (hstep : s.expire = some s') : Beside s s' := by
  unfold expire at hstep
  split_ifs at hstep
  obtain rfl := Option.some.inj hstep
  exact ⟨rfl, rfl, rfl, rfl, rfl, rfl, rfl, rfl, rfl, rfl, id⟩

theorem resumeWatch_beside (hstep : s.resumeWatch = some s') : Beside s s' := by
  unfold resumeWatch at hstep
  split at hstep
  · split_ifs at hstep
    · obtain rfl := Option.some.inj hstep
      exact ⟨rfl, rfl, rfl, rfl, rfl, rfl, rfl, rfl, rfl, rfl, id⟩
    · obtain rfl := Option.some.inj hstep
      exact ⟨rfl, rfl, rfl, rfl, rfl, rfl, rfl, rfl, rfl, rfl, fun _ => rfl⟩
  · obtain rfl := Option.some.inj hstep
    exact ⟨rfl, rfl, rfl, rfl, rfl, rfl, rfl, rfl, rfl, rfl, id⟩
  · cases hstep

theorem nextInput_beside (s : CmdStream) : Beside s s.nextInput := by
  unfold nextInput
  split
  · exact ⟨rfl, rfl, rfl, rfl, rfl, rfl, rfl, rfl, rfl, rfl, id⟩
  · split_ifs
    · exact ⟨rfl, rfl, rfl, rfl, rfl, rfl, rfl, rfl, rfl, rfl, id⟩
    · exact ⟨rfl, rfl, rfl, rfl, rfl, rfl, rfl, rfl, rfl, rfl, id⟩

theorem resumeInput_beside {failed : Bool} {n : ℕ} (hstep : s.resumeInput failed n = some s') : Beside s s' := by
  unfold resumeInput at hstep
  split at hstep
  · cases hstep
  · obtain rfl := Option.some.inj hstep
    exact nextInput_beside s
  · rename_i data _
    split_ifs at hstep
    · obtain rfl := Option.some.inj hstep
      exact ⟨rfl, rfl, rfl, rfl, rfl, rfl, rfl, rfl, rfl, rfl, id⟩
    · obtain rfl := Option.some.inj hstep
      obtain ⟨h1, h2, h3, h4, h5, h6, h7, h8, h9, h10, h11⟩ := nextInput_beside { s with stdin := s.stdin ++ data }
      exact ⟨h1, h2, h3, h4, h5, h6, h7, h8, h9, h10, h11⟩

theorem handleInput_beside (s : CmdStream) (payload : Json) : Beside s (s.handleInput payload) := by
  unfold handleInput
  by_cases hignored : s.finished ∨ ¬ s.stdinOpen ∨ inputData payload = []
  · rw [if_pos hignored]
    exact ⟨rfl, rfl, rfl, rfl, rfl, rfl, rfl, rfl, rfl, rfl, id⟩
  · rw [if_neg hignored]
    exact ⟨rfl, rfl, rfl, rfl, rfl, rfl, rfl, rfl, rfl, rfl, id⟩

theorem Streaming.produce (h : Streaming s) {channel : Channel} {bytes : Bytes}
    (hstep : s.produce channel bytes = some s') : Streaming s' := by
  unfold CmdStream.produce at hstep
  split_ifs at hstep with hopen
  obtain rfl := Option.some.inj hstep
  refine { h with bytes := ?bytes, drained := ?drained }
  case bytes =>
    intro c
    by_cases heq : c = channel
    · subst heq
      simp only [Function.update_self]
      rw [← h.bytes c]
      simp only [List.append_assoc]
    · simp only [Function.update_of_ne heq]
      exact h.bytes c
  case drained =>
    intro c hc hstop
    obtain ⟨hhung, hempty⟩ := h.drained c hc hstop
    have heq : c ≠ channel := by
      intro heq
      rw [heq, hopen.1] at hhung
      cases hhung
    simp only [Function.update_of_ne heq]
    exact ⟨hhung, hempty⟩

theorem Streaming.hangUp (h : Streaming s) (channel : Channel) : Streaming (s.hangUp channel) := by
  refine { h with drained := ?_ }
  intro c hc hstop
  obtain ⟨hhung, hempty⟩ := h.drained c hc hstop
  refine ⟨?_, hempty⟩
  by_cases heq : c = channel
  · subst heq
    simp [CmdStream.hangUp]
  · simpa [CmdStream.hangUp, Function.update_of_ne heq] using hhung

theorem Streaming.begin (h : Streaming s) (hstep : s.begin = some s') : Streaming s' := by
  unfold CmdStream.begin at hstep
  obtain ⟨hspawned, hstep⟩ := Option.ite_none_right_eq_some.1 hstep
  obtain rfl := Option.some.inj hstep
  obtain ⟨hwait, hreads⟩ := h.spawned hspawned
  refine
    { h with
      bytes := ?bytes, drained := ?drained, spawned := by simp, joined := by simp, closed := ?closed, killed := ?killed
      finished := ?finished, running := ?running, exitSent := by simp }
  case bytes =>
    intro c
    have hbytes := h.bytes c
    rw [hreads c] at hbytes
    have hnone : inFlight (if s.outputsOpen then .waiting else .queued none) = [] := by split_ifs <;> rfl
    simp only [hnone]
    exact hbytes
  case drained =>
    intro c hc hstop
    have hopen : s.outputsOpen = true := by
      rw [h.stopped]
      simpa using hstop
    simp [hopen] at hc
  case closed =>
    intro hclosed c _
    have hshut : s.outputsOpen = false := hclosed
    simp [hshut]
  case killed =>
    intro hclosed
    exact .inr ((h.killed hclosed).resolve_left (not_not.2 hwait))
  case finished =>
    intro hfinished
    exact absurd hspawned (h.finished hfinished).1
  case running =>
    intro _
    exact h.running (by simp [hspawned])

/-- one of the reads moves on, and sends what it brought -/
theorem Streaming.moveRead (h : Streaming s) (hjoining : s.coordinator = .joining) (channel : Channel) (r : AsyncRead)
    (rest : Bytes) (frames : List CmdFrame) (hframes : ∀ frame ∈ frames, isExit frame = false)
    (hother : ∀ c, c ≠ channel → carried c frames = [])
    (hbytes : carried channel frames ++ inFlight r ++ rest = inFlight (s.reads channel) ++ s.pipe channel)
    (hdrained : r = .done ∨ r = .queued none → s.stoppedExternally = false → s.hungUp channel = true ∧ rest = [])
    (hclosed : s.outputsOpen = false → r ≠ .waiting) :
    Streaming { s with
      pipe := Function.update s.pipe channel rest
      reads := Function.update s.reads channel r
      sent := s.sent ++ frames } := by
  have hspawned : s.coordinator ≠ .spawned := by simp [hjoining]
  have hgoing : s.coordinator ≠ .ended := by simp [hjoining]
  refine
    { h with
      bytes := ?bytes, drained := ?drained, spawned := (absurd · hspawned), joined := (absurd · hgoing)
      closed := ?closed, running := ?running, exitSent := (absurd · hgoing) }
  case bytes =>
    intro c
    by_cases heq : c = channel
    · subst heq
      simp only [Function.update_self, carried_append]
      rw [List.append_assoc, List.append_assoc, ← List.append_assoc (carried c frames), hbytes, ← List.append_assoc]
      exact h.bytes c
    · simp only [Function.update_of_ne heq, carried_append, hother c heq, List.append_nil]
      exact h.bytes c
  case drained =>
    intro c hc hstop
    by_cases heq : c = channel
    · subst heq
      simp only [Function.update_self] at hc ⊢
      exact hdrained hc hstop
    · simp only [Function.update_of_ne heq] at hc ⊢
      exact h.drained c hc hstop
  case closed =>
    intro hshut c hs
    by_cases heq : c = channel
    · subst heq
      simp only [Function.update_self]
      exact hclosed hshut
    · simp only [Function.update_of_ne heq]
      exact h.closed hshut c hs
  case running =>
    intro hs frame hframe
    rcases List.mem_append.1 hframe with hold | hnew
    · exact h.running hs frame hold
    · exact hframes frame hnew

theorem Streaming.readReady (h : Streaming s) {channel : Channel} {n : ℕ} (hstep : s.readReady channel n = some s') :
    Streaming s' := by
  unfold CmdStream.readReady at hstep
  obtain ⟨hready, hstep⟩ := Option.ite_none_right_eq_some.1 hstep
  obtain ⟨hjoining, hwaiting⟩ := hready
  simp only at hstep
  split_ifs at hstep with hpipe hhung
  · obtain rfl := Option.some.inj hstep
    have hmoved := h.moveRead hjoining channel
      (.queued (some ((s.pipe channel).take (min (n + 1) CMD_STREAM_BUFFER_SIZE))))
      ((s.pipe channel).drop (min (n + 1) CMD_STREAM_BUFFER_SIZE)) [] (by simp) (fun _ _ => rfl)
      (by simp [carried, inFlight, hwaiting]) (by simp) (by simp)
    simpa only [List.append_nil] using hmoved
  · obtain rfl := Option.some.inj hstep
    have hmoved := h.moveRead hjoining channel (.queued none) (s.pipe channel) [] (by simp) (fun _ _ => rfl)
      (by simp [carried, inFlight, hwaiting]) (fun _ _ => ⟨hhung, not_not.1 hpipe⟩) (by simp)
    simpa only [List.append_nil, Function.update_eq_self] using hmoved

theorem Streaming.resumeRead (h : Streaming s) {channel : Channel} (hstep : s.resumeRead channel = some s') :
    Streaming s' := by
  unfold CmdStream.resumeRead at hstep
  obtain ⟨hjoining, hstep⟩ := Option.ite_none_right_eq_some.1 hstep
  rcases hr : s.reads channel with _ | ⟨_ | bytes⟩ | _
  · simp [hr] at hstep
  · -- the coroutine ends
    simp only [hr] at hstep
    obtain rfl := Option.some.inj hstep
    have hmoved := h.moveRead hjoining channel .done (s.pipe channel) [] (by simp) (fun _ _ => rfl)
      (by simp [carried, inFlight, hr]) (fun _ => h.drained channel (.inr hr)) (by simp)
    simpa only [List.append_nil, Function.update_eq_self] using hmoved
  · simp only [hr] at hstep
    obtain rfl := Option.some.inj hstep
    have hmoved := h.moveRead hjoining channel (if s.outputsOpen then .waiting else .queued none) (s.pipe channel)
      (if bytes = [] then [] else [.data channel bytes]) ?_ ?_ ?_ ?_ ?_
    · rw [Function.update_eq_self] at hmoved
      convert hmoved using 2
      split_ifs <;> simp
    · split_ifs <;> simp [isExit]
    · intro c hc
      split_ifs <;> simp [carried, hc.symm]
    · have hnone : inFlight (if s.outputsOpen then .waiting else .queued none) = [] := by split_ifs <;> rfl
      rw [hnone, hr]
      split_ifs with hempty <;> simp [carried, inFlight, hempty]
    · intro hend hstop
      have hopen : s.outputsOpen = true := by
        rw [h.stopped]
        simpa using hstop
      simp [hopen] at hend
    · intro hshut
      simp [hshut]
  · simp [hr] at hstep

theorem Streaming.waitReady (h : Streaming s) {failed : Bool} (hstep : s.waitReady failed = some s') :
    Streaming s' := by
  unfold CmdStream.waitReady at hstep
  obtain ⟨hready, hstep⟩ := Option.ite_none_right_eq_some.1 hstep
  obtain rfl := Option.some.inj hstep
  obtain ⟨hjoining, hwaiting, -⟩ := hready
  refine { h with spawned := ?spawned, killed := ?killed, finished := ?finished }
  case spawned =>
    intro hs
    exact absurd (hjoining.symm.trans hs) (by simp)
  case killed =>
    intro _
    exact .inl (by simp)
  case finished =>
    intro hs
    exact absurd (hwaiting.symm.trans (h.finished hs).2) (by simp)

theorem Streaming.resumeWait (h : Streaming s) (hstep : s.resumeWait = some s') : Streaming s' := by
  unfold CmdStream.resumeWait at hstep
  obtain ⟨hjoining, hstep⟩ := Option.ite_none_right_eq_some.1 hstep
  split at hstep
  · obtain rfl := Option.some.inj hstep
    refine { h with spawned := ?spawned, killed := ?killed, finished := ?finished }
    case spawned =>
      intro hs
      exact absurd (hjoining.symm.trans hs) (by simp)
    case killed =>
      intro _
      exact .inl (by simp)
    case finished =>
      intro _
      exact ⟨by simp [hjoining], rfl⟩
  · cases hstep

theorem Streaming.join (h : Streaming s) (hstep : s.join = some s') : Streaming s' := by
  unfold CmdStream.join at hstep
  split_ifs at hstep with hready
  obtain rfl := Option.some.inj hstep
  obtain ⟨hjoining, hout, herr, hwait⟩ := hready
  have hnone := h.running (by simp [hjoining])
  refine
    { h with
      bytes := ?bytes, spawned := by simp, joined := ?joined, closed := ?closed, finished := ?finished
      running := ?running, exitSent := ?exitSent }
  case bytes =>
    intro c
    simp only [carried_append, carried, List.append_nil]
    exact h.bytes c
  case joined =>
    intro _ c
    cases c with
    | out => exact hout
    | err => exact herr
  case closed =>
    intro _ c hs
    cases hs
  case finished =>
    intro _
    exact ⟨by simp, hwait⟩
  case running =>
    intro hs
    exact absurd rfl hs
  case exitSent =>
    intro _
    exact ⟨s.sent, _, _, rfl, hnone⟩

theorem inFlight_stop (s : CmdStream) (channel : Channel) :
    inFlight (s.stop.reads channel) = inFlight (s.reads channel) := by
  simp only [CmdStream.stop]
  split_ifs with hwaiting
  · rw [hwaiting]
    rfl
  · rfl

theorem Streaming.stop (h : Streaming s) : Streaming s.stop := by
  refine
    { h with
      bytes := ?bytes, drained := ?drained, spawned := ?spawned, joined := ?joined, closed := ?closed, stopped := rfl
      killed := ?killed }
  case bytes =>
    intro c
    rw [inFlight_stop]
    exact h.bytes c
  case drained =>
    intro c _ hs
    cases hs
  case spawned =>
    intro hs
    refine ⟨(h.spawned hs).1, ?_⟩
    intro c
    rw [inFlight_stop]
    exact (h.spawned hs).2 c
  case joined =>
    intro hs c
    have hdone := h.joined hs c
    simp [CmdStream.stop, hdone]
  case closed =>
    intro _ c _
    simp only [CmdStream.stop]
    split_ifs with hwaiting
    · simp
    · exact hwaiting
  case killed =>
    intro _
    by_cases hfinished : s.finished = true
    · have hdone : s.stop.wait = .done := (h.finished hfinished).2
      exact .inl (by simp [hdone])
    · refine .inr ?_
      simp [CmdStream.stop, hfinished, terminate]

/-- **Every event** keeps the invariant. -/
theorem Streaming.step (h : Streaming s) (e : StreamEvent) (hstep : step s e = some s') : Streaming s' := by
  cases e with
  | produce channel bytes => exact h.produce hstep
  | hangUp channel =>
    obtain rfl := Option.some.inj hstep
    exact h.hangUp channel
  | exits code => exact h.beside (exits_beside hstep)
  | begin => exact h.begin hstep
  | readReady channel n => exact h.readReady hstep
  | resumeRead channel => exact h.resumeRead hstep
  | waitReady failed => exact h.waitReady hstep
  | resumeWait => exact h.resumeWait hstep
  | join => exact h.join hstep
  | beginWatch => exact h.beside (beginWatch_beside hstep)
  | expire => exact h.beside (expire_beside hstep)
  | resumeWatch => exact h.beside (resumeWatch_beside hstep)
  | resumeInput failed n => exact h.beside (resumeInput_beside hstep)
  | stop =>
    obtain rfl := Option.some.inj hstep
    exact h.stop
  | input payload =>
    obtain rfl := Option.some.inj hstep
    exact h.beside (handleInput_beside s payload)

/-- **Every run** keeps the invariant. -/
theorem Streaming.run (h : Streaming s) (events : List StreamEvent) : Streaming (run s events) :=
  Guarded.always (fun _ e _ hs hstep => Streaming.step hs e hstep) s events h

/-! ## The end of a stopped session -/

/-- what a read has to go through before its coroutine ends -/
def readWork : AsyncRead → ℕ
  | .queued (some _) => 2
  | .queued none => 1
  | _ => 0

def waitWork : ProcessWait → ℕ
  | .waiting => 2
  | .queued _ => 1
  | .done => 0

def work (s : CmdStream) : ℕ :=
  match s.coordinator with
  | .spawned => 8
  | .joining => 1 + readWork (s.reads .out) + readWork (s.reads .err) + waitWork s.wait
  | .ended => 0

/-- a read of a closed pipe that has ended moves its coroutine on -/
theorem resumeRead_closed (hclosed : s.outputsOpen = false) (hjoining : s.coordinator = .joining) {channel : Channel}
    {bytes : Option Bytes} (hread : s.reads channel = .queued bytes) :
    ∃ s', s.resumeRead channel = some s' ∧ s'.outputsOpen = false ∧ s'.coordinator = .joining ∧ s'.wait = s.wait ∧
      readWork (s'.reads channel) < readWork (s.reads channel) ∧ ∀ c, c ≠ channel → s'.reads c = s.reads c := by
  unfold CmdStream.resumeRead
  rw [if_pos hjoining, hread]
  rcases bytes with _ | bytes
  · refine ⟨_, rfl, hclosed, hjoining, rfl, ?_, fun c hc => ?_⟩
    · simp [readWork]
    · simp [hc]
  · refine ⟨_, rfl, hclosed, hjoining, rfl, ?_, fun c hc => ?_⟩
    · simp [readWork, hclosed]
    · simp [hc]

/-- a stopped session that is not over can go on towards its end without another stop -/
theorem Streaming.progress (h : Streaming s) (hclosed : s.outputsOpen = false) (hgoing : s.coordinator ≠ .ended) :
    ∃ e s', e ≠ .stop ∧ CmdStream.step s e = some s' ∧ s'.outputsOpen = false ∧ work s' < work s := by
  rcases hcoordinator : s.coordinator with _ | _ | _
  · refine ⟨.begin, _, by simp, if_pos hcoordinator, hclosed, ?_⟩
    simp [work, hcoordinator, hclosed, readWork, waitWork]
  · rcases hout : s.reads .out with _ | bytes | _
    · exact absurd hout (h.closed hclosed .out hcoordinator)
    · obtain ⟨s', hstep, hclosed', hjoining, hwait, hless, hkept⟩ := resumeRead_closed hclosed hcoordinator hout
      refine ⟨.resumeRead .out, s', by simp, hstep, hclosed', ?_⟩
      simp only [work, hcoordinator, hjoining, hwait, hkept .err (by decide)]
      omega
    · rcases herr : s.reads .err with _ | bytes | _
      · exact absurd herr (h.closed hclosed .err hcoordinator)
      · obtain ⟨s', hstep, hclosed', hjoining, hwait, hless, hkept⟩ := resumeRead_closed hclosed hcoordinator herr
        refine ⟨.resumeRead .err, s', by simp, hstep, hclosed', ?_⟩
        simp only [work, hcoordinator, hjoining, hwait, hkept .out (by decide)]
        omega
      · rcases hwait : s.wait with _ | code | _
        · have hexited := (h.killed hclosed).resolve_left (not_not.2 hwait)
          refine ⟨.waitReady false, _, by simp, if_pos ⟨hcoordinator, hwait, .inr hexited⟩, hclosed, ?_⟩
          simp [work, hcoordinator, hwait, waitWork]
        · refine ⟨.resumeWait, { s with exitCode := code.getD (-1), finished := true, wait := .done }, by simp, ?_,
            hclosed, ?_⟩
          · simp [CmdStream.step, CmdStream.resumeWait, hcoordinator, hwait]
          · simp [work, hcoordinator, hwait, waitWork]
        · refine ⟨.join, _, by simp, if_pos ⟨hcoordinator, hout, herr, hwait⟩, hclosed, ?_⟩
          simp [work, hcoordinator]
  · exact absurd hcoordinator hgoing

/-- **A stopped session ends.** -/
theorem Streaming.canEnd (h : Streaming s) (hclosed : s.outputsOpen = false) :
    ∃ events, (∀ e ∈ events, e ≠ .stop) ∧ (CmdStream.run s events).coordinator = .ended := by
  refine Guarded.reaches (fun s => Streaming s ∧ s.outputsOpen = false) (fun s => s.coordinator = .ended) work
    (fun s hs hgoing => ?_) s ⟨h, hclosed⟩
  obtain ⟨e, s', he, hstep, hclosed', hless⟩ := hs.1.progress hs.2 hgoing
  exact ⟨e, s', he, hstep, ⟨hs.1.step e hstep, hclosed'⟩, hless⟩

/-! ## After a stop -/

/-- the pipes stay closed, and a session that is over sends nothing more -/
theorem step_kept {e : StreamEvent} (hstep : step s e = some s') :
    (s.outputsOpen = false → s'.outputsOpen = false) ∧
      (s.coordinator = .ended → s'.coordinator = .ended ∧ s'.sent = s.sent) := by
  have hbeside : Beside s s' → (s.outputsOpen = false → s'.outputsOpen = false) ∧
      (s.coordinator = .ended → s'.coordinator = .ended ∧ s'.sent = s.sent) := fun hb =>
    ⟨fun hclosed => hb.outputsOpen.trans hclosed, fun hended => ⟨hb.coordinator.trans hended, hb.sent⟩⟩
  cases e with
  | produce channel bytes =>
    simp only [step] at hstep
    unfold produce at hstep
    split_ifs at hstep
    obtain rfl := Option.some.inj hstep
    exact ⟨id, fun hended => ⟨hended, rfl⟩⟩
  | hangUp channel =>
    obtain rfl := Option.some.inj hstep
    exact ⟨id, fun hended => ⟨hended, rfl⟩⟩
  | exits code => exact hbeside (exits_beside hstep)
  | begin =>
    simp only [step] at hstep
    unfold begin at hstep
    obtain ⟨hspawned, hstep⟩ := Option.ite_none_right_eq_some.1 hstep
    obtain rfl := Option.some.inj hstep
    exact ⟨id, fun hended => absurd (hspawned.symm.trans hended) (by simp)⟩
  | readReady channel n =>
    simp only [step] at hstep
    unfold readReady at hstep
    split_ifs at hstep with hready
    · obtain rfl := Option.some.inj hstep
      exact ⟨id, fun hended => absurd (hready.1.symm.trans hended) (by simp)⟩
    · obtain rfl := Option.some.inj hstep
      exact ⟨id, fun hended => absurd (hready.1.symm.trans hended) (by simp)⟩
  | resumeRead channel =>
    simp only [step] at hstep
    unfold resumeRead at hstep
    obtain ⟨hjoining, hstep⟩ := Option.ite_none_right_eq_some.1 hstep
    refine ⟨fun hclosed => ?_, fun hended => absurd (hjoining.symm.trans hended) (by simp)⟩
    split at hstep
    · obtain rfl := Option.some.inj hstep
      exact hclosed
    · obtain rfl := Option.some.inj hstep
      exact hclosed
    · cases hstep
  | waitReady failed =>
    simp only [step] at hstep
    unfold waitReady at hstep
    obtain ⟨hready, hstep⟩ := Option.ite_none_right_eq_some.1 hstep
    obtain rfl := Option.some.inj hstep
    exact ⟨id, fun hended => absurd (hready.1.symm.trans hended) (by simp)⟩
  | resumeWait =>
    simp only [step] at hstep
    unfold resumeWait at hstep
    obtain ⟨hjoining, hstep⟩ := Option.ite_none_right_eq_some.1 hstep
    refine ⟨fun hclosed => ?_, fun hended => absurd (hjoining.symm.trans hended) (by simp)⟩
    split at hstep
    · obtain rfl := Option.some.inj hstep
      exact hclosed
    · cases hstep
  | join =>
    simp only [step] at hstep
    unfold join at hstep
    split_ifs at hstep with hready
    obtain rfl := Option.some.inj hstep
    exact ⟨id, fun hended => absurd (hready.1.symm.trans hended) (by simp)⟩
  | beginWatch => exact hbeside (beginWatch_beside hstep)
  | expire => exact hbeside (expire_beside hstep)
  | resumeWatch => exact hbeside (resumeWatch_beside hstep)
  | resumeInput failed n => exact hbeside (resumeInput_beside hstep)
  | stop =>
    obtain rfl := Option.some.inj hstep
    exact ⟨fun _ => rfl, fun hended => ⟨hended, rfl⟩⟩
  | input payload =>
    obtain rfl := Option.some.inj hstep
    exact hbeside (handleInput_beside s payload)

theorem closed_run (hclosed : s.outputsOpen = false) (events : List StreamEvent) : (run s events).outputsOpen = false :=
  Guarded.always (fun _ _ _ hs hstep => (step_kept hstep).1 hs) s events hclosed

theorem ended_run (hended : s.coordinator = .ended) (events : List StreamEvent) :
    (run s events).coordinator = .ended ∧ (run s events).sent = s.sent := by
  refine Guarded.always (I := fun t => t.coordinator = .ended ∧ t.sent = s.sent) (fun t e t' ht hstep => ?_) s events
    ⟨hended, rfl⟩
  obtain ⟨hcoordinator, hsent⟩ := (step_kept hstep).2 ht.1
  exact ⟨hcoordinator, hsent.trans ht.2⟩

theorem lateStop_of_none {more : List StreamEvent} (hmore : ∀ e ∈ more, e ≠ .stop) (s : CmdStream) :
    Run.Steps (Guarded.step step) LateStop s more := by
  rw [Run.Steps.iff_splits]
  rintro before e after rfl
  have hne : e ≠ .stop := hmore e (by simp)
  cases e with
  | stop => exact absurd rfl hne
  | _ => trivial

/-- **After late stops** nothing is sent. -/
theorem quiet_of_late {events : List StreamEvent} (h : Run.Steps (Guarded.step step) LateStop s events) :
    Quiet s events := by
  rintro before after rfl
  have hended : (run s before).coordinator = .ended := ((Run.Steps.append_iff s before (.stop :: after)).1 h).2.1
  rw [run, Guarded.run, Run.run_append]
  exact (ended_run hended (.stop :: after)).2

/-- **After an early stop** the exit frame can still be sent. -/
theorem Streaming.early (h : Streaming s) {before : List StreamEvent} (after : List StreamEvent)
    (hgoing : (CmdStream.run s before).coordinator ≠ .ended) :
    ∃ more, (∀ e ∈ more, e ≠ .stop) ∧ ¬ Quiet s (before ++ .stop :: after ++ more) := by
  have hclosed : (CmdStream.run s (before ++ .stop :: after)).outputsOpen = false := by
    rw [CmdStream.run, Guarded.run, Run.run_append]
    exact closed_run (s := CmdStream.stop _) rfl after
  obtain ⟨more, hmore, hended⟩ := (h.run (before ++ .stop :: after)).canEnd hclosed
  refine ⟨more, hmore, fun hquiet => ?_⟩
  have hsame := hquiet before (after ++ more) (by simp)
  rw [CmdStream.run, Guarded.run, ← Run.run_append] at hended
  obtain ⟨frames, code, timeout, hexit, -⟩ := (h.run _).exitSent hended
  have hnone := (h.run before).running hgoing (.exit code timeout) (by rw [← hsame, hexit]; simp)
  cases hnone

/-- **The frames of a streamed command**: in every run they carry the outputs in order, and the exit frame is the last.
Nothing follows a stop, however the run goes on, exactly if every stop came when `run` was over. -/
theorem frames_iff (timeoutSeconds : ℤ) (events : List StreamEvent) :
    (∀ channel, InOrder (run (start timeoutSeconds) events) channel) ∧ ExitLast (run (start timeoutSeconds) events) ∧
      ((∀ more, (∀ e ∈ more, e ≠ .stop) → Quiet (start timeoutSeconds) (events ++ more)) ↔
        Run.Steps (Guarded.step step) LateStop (start timeoutSeconds) events) := by
  have hstart := streaming_start timeoutSeconds
  refine ⟨(hstart.run events).inOrder, (hstart.run events).exitLast, fun hquiet => ?_, fun hlate more hmore => ?_⟩
  · rw [Run.Steps.iff_splits]
    rintro before e after rfl
    cases e with
    | stop =>
      by_contra hgoing
      obtain ⟨more, hmore, hloud⟩ := hstart.early after hgoing
      exact hloud (hquiet more hmore)
    | _ => trivial
  · refine quiet_of_late ?_
    rw [Run.Steps.append_iff]
    exact ⟨hlate, lateStop_of_none hmore _⟩

/-- the server stops a command that is running: the exit frame follows -/
theorem stop_sends_exit : ¬ ∀ events, Quiet (start 0) events := by
  intro h
  have hquiet := h [.begin, .stop, .resumeRead .out, .resumeRead .err, .waitReady false, .resumeWait, .join] [.begin] _
    rfl
  exact absurd hquiet (by decide)

end CmdStream

end Iotmp
