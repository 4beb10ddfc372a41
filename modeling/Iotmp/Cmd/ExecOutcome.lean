/-
What `cmd::exec` reports (`cmd.cpp`), whatever its asynchronous operations bring and in whatever order.

Here the process and the pipes are free: a read brings any bytes or the end of its pipe at any time, the wait any exit
code or an error, and the timer may expire whenever it is set.

- `ExecLoop`: the operations of the io_context and the variables of `exec`. Beside them, what an observer sees: the
  bytes that reads brought, the ends of pipes they met, and how often `pending` was decremented.
- `Complete`: both outputs at their end or closed, the process reaped with its exit code (-1 where the wait failed), three
  decrements, all bytes captured in order.
- `OnTime`: the handler of the expired timer finds something outstanding. `RealOutcome`: so it is along a run, and the
  loop ends in a complete state only.
- `Recallable`: the last completion finds no handler of an expired timer in the queue, which `cancel` would not recall.
- `real_outcome`: a run whose steps are all recallable has the real outcome; if it returns, only such a run has it.
- `exec_shown`: the loop of `Exec`, with its process and its pipes, is one of these.
Witness: `echo_real`. Counterexample: `success_timed_out`.
-/
import Mathlib.Tactic
import Iotmp.Cmd.ExecProgress

namespace Iotmp

open Exec (bufferSize)

structure ExecLoop where
  reads : Channel → AsyncRead := fun _ => .waiting
  pipesOpen : Bool := true
  wait : AsyncWait := .waiting
  /-- the exit code that the wait brought -/
  status : Option ℤ := none
  waitFailed : Bool := false
  timer : Deadline
  pending : ℕ := 3
  /-- `pout` and `perr` -/
  captured : Channel → Bytes := fun _ => []
  exitCode : ℤ := -1
  timedOut : Bool := false
  returned : Bool := false
  /-- everything the reads brought, in order -/
  arrived : Channel → Bytes := fun _ => []
  /-- the reads that met the end of their pipe -/
  atEnd : Channel → Bool := fun _ => false
  /-- how often `pending` was decremented -/
  decrements : ℕ := 0

namespace ExecLoop

def start (timeoutSeconds : ℤ) : ExecLoop where
  timer := if 0 < timeoutSeconds then .waiting else .unset

/-! ## Completions -/

/-- a read brings some bytes, at most what its buffer takes -/
def readBytes (s : ExecLoop) (channel : Channel) (bytes : Bytes) : Option ExecLoop :=
  if s.reads channel = .waiting ∧ bytes ≠ [] ∧ bytes.length ≤ bufferSize then
    some { s with
      reads := Function.update s.reads channel (.queued (some bytes))
      arrived := Function.update s.arrived channel (s.arrived channel ++ bytes) }
  else none

def readEnd (s : ExecLoop) (channel : Channel) : Option ExecLoop :=
  if s.reads channel = .waiting then
    some { s with
      reads := Function.update s.reads channel (.queued none)
      atEnd := Function.update s.atEnd channel true }
  else none

def exit (s : ExecLoop) (code : ℤ) : Option ExecLoop :=
  if s.wait = .waiting then some { s with wait := .queued, status := some code } else none

def waitError (s : ExecLoop) : Option ExecLoop :=
  if s.wait = .waiting then some { s with wait := .queued, waitFailed := true } else none

def expire (s : ExecLoop) : Option ExecLoop :=
  if s.timer = .waiting then some { s with timer := .expired } else none

/-! ## Handlers -/

/-- `on_pending_done` -/
def pendingDone (s : ExecLoop) : ExecLoop :=
  { s with
    pending := s.pending - 1
    decrements := s.decrements + 1
    timer := if s.pending - 1 = 0 ∧ s.timer = .waiting then .cancelled else s.timer }

/-- `on_stdout` and `on_stderr`; a read on a closed pipe fails at once -/
def handleRead (s : ExecLoop) (channel : Channel) : Option ExecLoop :=
  match s.reads channel with
  | .queued (some bytes) =>
    some { s with
      captured := Function.update s.captured channel (s.captured channel ++ bytes)
      reads := Function.update s.reads channel (if s.pipesOpen then .waiting else .queued none) }
  | .queued none => some { s with reads := Function.update s.reads channel .done }.pendingDone
  | _ => none

/-- after an error the exit code stays as it is -/
def handleWait (s : ExecLoop) : Option ExecLoop :=
  if s.wait = .queued then some { s with exitCode := s.status.getD s.exitCode, wait := .done }.pendingDone else none

/-- on expiry the process is terminated and the pipes are closed, which ends their reads -/
def handleTimer (s : ExecLoop) : Option ExecLoop :=
  match s.timer with
  | .expired =>
    some { s with
      timer := .done
      timedOut := true
      pipesOpen := false
      reads := fun channel => if s.reads channel = .waiting then .queued none else s.reads channel }
  | .cancelled => some { s with timer := .done }
  | _ => none

/-- the io_context has no work left -/
def finish (s : ExecLoop) : Option ExecLoop :=
  if s.returned = false ∧ s.reads .out = .done ∧ s.reads .err = .done ∧ s.wait = .done ∧
      (s.timer = .unset ∨ s.timer = .done) then
    some { s with returned := true }
  else none

inductive LoopEvent where
  | readBytes (channel : Channel) (bytes : Bytes)
  | readEnd (channel : Channel)
  | exit (code : ℤ)
  | waitError
  | expire
  | handleRead (channel : Channel)
  | handleWait
  | handleTimer
  | finish

def step (s : ExecLoop) : LoopEvent → Option ExecLoop
  | .readBytes channel bytes => s.readBytes channel bytes
  | .readEnd channel => s.readEnd channel
  | .exit code => s.exit code
  | .waitError => s.waitError
  | .expire => s.expire
  | .handleRead channel => s.handleRead channel
  | .handleWait => s.handleWait
  | .handleTimer => s.handleTimer
  | .finish => s.finish

abbrev run (s : ExecLoop) (events : List LoopEvent) : ExecLoop := Guarded.run step s events

/-! ## The outcome -/

structure Complete (s : ExecLoop) : Prop where
  drained : ∀ channel, s.atEnd channel = true ∨ s.pipesOpen = false ∧ s.timedOut = true
  reaped : s.wait = .done ∧ (s.waitFailed = false → s.status = some s.exitCode) ∧
    (s.waitFailed = true → s.status = none ∧ s.exitCode = -1)
  counted : s.decrements = 3 ∧ s.pending = 0
  captured : ∀ channel, s.captured channel = s.arrived channel

/-- the handler of an expired timer runs while something is outstanding -/
def OnTime (s : ExecLoop) : LoopEvent → Prop
  | .handleTimer => s.timer = .expired → 0 < s.pending
  | _ => True

structure RealOutcome (s : ExecLoop) (events : List LoopEvent) : Prop where
  complete : ∀ before, before <+: events → (run s before).returned = true → (run s before).Complete
  onTime : Run.Steps (Guarded.step step) OnTime s events

/-- the event runs the handler of a completion: of a read at its end, or of the wait -/
def Completes (s : ExecLoop) : LoopEvent → Prop
  | .handleRead channel => s.reads channel = .queued none
  | .handleWait => s.wait = .queued
  | _ => False

/-- the last completion finds the timer's handler not in the queue -/
def Recallable (s : ExecLoop) (e : LoopEvent) : Prop := s.Completes e → s.pending = 1 → s.timer ≠ .expired

instance instDecidableOnTime (s : ExecLoop) : ∀ e, Decidable (s.OnTime e)
  | .handleTimer => inferInstanceAs (Decidable (s.timer = .expired → 0 < s.pending))
  | .readBytes _ _ | .readEnd _ | .exit _ | .waitError | .expire | .handleRead _ | .handleWait | .finish => isTrue trivial

instance instDecidableCompletes (s : ExecLoop) : ∀ e, Decidable (s.Completes e)
  | .handleRead channel => inferInstanceAs (Decidable (s.reads channel = .queued none))
  | .handleWait => inferInstanceAs (Decidable (s.wait = .queued))
  | .readBytes _ _ | .readEnd _ | .exit _ | .waitError | .expire | .handleTimer | .finish => isFalse id

instance instDecidableRecallable (s : ExecLoop) (e : LoopEvent) : Decidable (s.Recallable e) :=
  inferInstanceAs (Decidable (_ → _))

/-! ## What every event keeps -/

/-- the completions that `exec` has not handled yet -/
def outstanding (s : ExecLoop) : ℕ :=
  (if s.reads .out = .done then 0 else 1) + (if s.reads .err = .done then 0 else 1) + (if s.wait = .done then 0 else 1)

/-- bytes on their way to a handler -/
def inFlight : AsyncRead → Bytes
  | .queued (some bytes) => bytes
  | _ => []

/-- what is known of the exit code, by where the wait stands -/
def Waited (s : ExecLoop) : Prop :=
  match s.wait with
  | .waiting => s.waitFailed = false ∧ s.status = none ∧ s.exitCode = -1
  | .queued => (s.waitFailed = true ↔ s.status = none) ∧ s.exitCode = -1
  | .done => (s.waitFailed = false → s.status = some s.exitCode) ∧
      (s.waitFailed = true → s.status = none ∧ s.exitCode = -1)

structure Accounted (s : ExecLoop) : Prop where
  ended : ∀ channel, s.reads channel = .queued none ∨ s.reads channel = .done →
    s.atEnd channel = true ∨ s.pipesOpen = false
  cut : s.pipesOpen = false → s.timedOut = true
  bytes : ∀ channel, s.captured channel ++ inFlight (s.reads channel) = s.arrived channel
  pending : s.pending = s.outstanding
  counted : s.decrements + s.pending = 3
  waited : s.Waited
  returned : s.returned = true → s.pending = 0 ∧ (s.timer = .unset ∨ s.timer = .done)

theorem accounted_start (timeoutSeconds : ℤ) : (start timeoutSeconds).Accounted where
  ended channel h := absurd h (by simp [start])
  cut h := absurd h (by simp [start])
  bytes _ := rfl
  pending := rfl
  counted := rfl
  waited := ⟨rfl, rfl, rfl⟩
  returned h := absurd h (by simp [start])

variable {s s' : ExecLoop}

/-- a read that was not done, with what has become of it -/
theorem outstanding_read (s : ExecLoop) (channel : Channel) (h : s.reads channel ≠ .done) (r : AsyncRead) :
    { s with reads := Function.update s.reads channel r }.outstanding + (if r = .done then 1 else 0) =
      s.outstanding := by
  cases channel with
  | out =>
    simp only [outstanding, Function.update_self, Function.update_of_ne (show Channel.err ≠ .out by decide), if_neg h]
    split_ifs <;> omega
  | err =>
    simp only [outstanding, Function.update_self, Function.update_of_ne (show Channel.out ≠ .err by decide), if_neg h]
    split_ifs <;> omega

/-- a read in flight, with another end of it -/
theorem ended_update {reads : Channel → AsyncRead} {atEnd : Channel → Bool} {pipesOpen : Bool}
    (h : ∀ channel, reads channel = .queued none ∨ reads channel = .done → atEnd channel = true ∨ pipesOpen = false)
    {channel : Channel} {r : AsyncRead} (hr : r = .queued none ∨ r = .done → atEnd channel = true ∨ pipesOpen = false)
    (channel' : Channel)
    (h' : Function.update reads channel r channel' = .queued none ∨ Function.update reads channel r channel' = .done) :
    atEnd channel' = true ∨ pipesOpen = false := by
  by_cases heq : channel' = channel
  · subst heq
    rw [Function.update_self] at h'
    exact hr h'
  · rw [Function.update_of_ne heq] at h'
    exact h channel' h'

theorem Accounted.readBytes (h : s.Accounted) {channel : Channel} {bytes : Bytes}
    (hstep : s.readBytes channel bytes = some s') : s'.Accounted := by
  obtain ⟨⟨hwaiting, -, -⟩, hstep⟩ := Option.ite_none_right_eq_some.1 hstep
  obtain rfl := Option.some.inj hstep
  refine { h with ended := ended_update h.ended (by simp), bytes := ?bytes, pending := ?pending }
  case bytes =>
    intro channel'
    have hbytes := h.bytes channel'
    by_cases heq : channel' = channel
    · subst heq
      rw [hwaiting] at hbytes
      simp only [Function.update_self, inFlight, List.append_nil] at hbytes ⊢
      rw [hbytes]
    · simpa only [Function.update_of_ne heq] using hbytes
  case pending =>
    have hcount := outstanding_read s channel (by simp [hwaiting]) (.queued (some bytes))
    exact h.pending.trans hcount.symm

theorem Accounted.readEnd (h : s.Accounted) {channel : Channel} (hstep : s.readEnd channel = some s') :
    s'.Accounted := by
  obtain ⟨hwaiting, hstep⟩ := Option.ite_none_right_eq_some.1 hstep
  obtain rfl := Option.some.inj hstep
  refine { h with ended := ?ended, bytes := ?bytes, pending := ?pending }
  case ended =>
    refine ended_update (fun channel' h' => ?_) (by simp)
    by_cases heq : channel' = channel
    · exact .inl (by simp [heq])
    · simpa only [Function.update_of_ne heq] using h.ended channel' h'
  case bytes =>
    intro channel'
    have hbytes := h.bytes channel'
    by_cases heq : channel' = channel
    · subst heq
      rw [hwaiting] at hbytes
      simpa [inFlight] using hbytes
    · simpa only [Function.update_of_ne heq] using hbytes
  case pending =>
    have hcount := outstanding_read s channel (by simp [hwaiting]) (.queued none)
    exact h.pending.trans hcount.symm

theorem Accounted.exit (h : s.Accounted) {code : ℤ} (hstep : s.exit code = some s') : s'.Accounted := by
  obtain ⟨hwaiting, hstep⟩ := Option.ite_none_right_eq_some.1 hstep
  obtain rfl := Option.some.inj hstep
  have hpending := h.pending
  simp only [outstanding, hwaiting] at hpending
  have hwaited := h.waited
  rw [Waited, hwaiting] at hwaited
  exact { h with pending := hpending, waited := ⟨by simp [hwaited.1], hwaited.2.2⟩ }

theorem Accounted.waitError (h : s.Accounted) (hstep : s.waitError = some s') : s'.Accounted := by
  obtain ⟨hwaiting, hstep⟩ := Option.ite_none_right_eq_some.1 hstep
  obtain rfl := Option.some.inj hstep
  have hpending := h.pending
  simp only [outstanding, hwaiting] at hpending
  have hwaited := h.waited
  rw [Waited, hwaiting] at hwaited
  exact { h with pending := hpending, waited := ⟨by simp [hwaited.2.1], hwaited.2.2⟩ }

theorem Accounted.expire (h : s.Accounted) (hstep : s.expire = some s') : s'.Accounted := by
  obtain ⟨hwaiting, hstep⟩ := Option.ite_none_right_eq_some.1 hstep
  obtain rfl := Option.some.inj hstep
  refine { h with returned := ?returned }
  case returned =>
    intro hreturned
    have htimer := (h.returned hreturned).2
    exact absurd htimer (by simp [hwaiting])

/-- one completion less -/
theorem Accounted.pendingDone {t : ExecLoop} (h : s.Accounted) (hcount : t.outstanding + 1 = s.outstanding)
    (hended : ∀ channel, t.reads channel = .queued none ∨ t.reads channel = .done →
      t.atEnd channel = true ∨ t.pipesOpen = false)
    (hcut : t.pipesOpen = false → t.timedOut = true)
    (hbytes : ∀ channel, t.captured channel ++ inFlight (t.reads channel) = t.arrived channel)
    (hpending : t.pending = s.pending) (hdecrements : t.decrements = s.decrements)
    (hwaited : t.Waited) (hreturned : t.returned = s.returned) : t.pendingDone.Accounted := by
  have hs := h.pending
  have hthree := h.counted
  refine ⟨hended, hcut, hbytes, ?pending, ?counted, hwaited, ?returned⟩
  case pending =>
    change t.pending - 1 = t.outstanding
    omega
  case counted =>
    change t.decrements + 1 + (t.pending - 1) = 3
    omega
  case returned =>
    intro hr
    have hzero := (h.returned (hreturned.symm.trans hr)).1
    omega

theorem Accounted.handleRead (h : s.Accounted) {channel : Channel} (hstep : s.handleRead channel = some s') :
    s'.Accounted := by
  unfold ExecLoop.handleRead at hstep
  rcases hread : s.reads channel with _ | (_ | bytes) | _
  · simp [hread] at hstep
  · -- the read is over
    simp only [hread] at hstep
    obtain rfl := Option.some.inj hstep
    have hcount := outstanding_read s channel (by simp [hread]) .done
    refine h.pendingDone hcount (ended_update h.ended fun _ => h.ended channel (.inl hread)) h.cut ?_ rfl rfl
      h.waited rfl
    intro channel'
    have hbytes := h.bytes channel'
    by_cases heq : channel' = channel
    · subst heq
      rw [hread] at hbytes
      simpa [inFlight] using hbytes
    · simpa only [Function.update_of_ne heq] using hbytes
  · -- its bytes are appended, and the next read begins
    simp only [hread] at hstep
    obtain rfl := Option.some.inj hstep
    refine { h with ended := ended_update h.ended ?ended, bytes := ?bytes, pending := ?pending }
    case ended =>
      split_ifs with hopen
      · simp
      · exact fun _ => .inr (by simpa using hopen)
    case bytes =>
      intro channel'
      have hbytes := h.bytes channel'
      by_cases heq : channel' = channel
      · subst heq
        rw [hread] at hbytes
        simp only [Function.update_self, ← hbytes, inFlight]
        split_ifs
        · simp
        · simp
      · simpa only [Function.update_of_ne heq] using hbytes
    case pending =>
      have hcount := outstanding_read s channel (by simp [hread])
        (if s.pipesOpen = true then .waiting else .queued none)
      have hne : (if s.pipesOpen = true then AsyncRead.waiting else .queued none) ≠ .done := by
        split_ifs
        · simp
        · simp
      rw [if_neg hne] at hcount
      exact h.pending.trans hcount.symm
  · simp [hread] at hstep

theorem Accounted.handleWait (h : s.Accounted) (hstep : s.handleWait = some s') : s'.Accounted := by
  obtain ⟨hqueued, hstep⟩ := Option.ite_none_right_eq_some.1 hstep
  obtain rfl := Option.some.inj hstep
  have hwaited := h.waited
  rw [Waited, hqueued] at hwaited
  obtain ⟨hfailed, hcode⟩ := hwaited
  refine h.pendingDone ?count h.ended h.cut h.bytes rfl rfl ⟨fun hok => ?ok, fun herror => ?error⟩ rfl
  case count =>
    simp only [outstanding, hqueued]
    simp
  case ok =>
    rcases hstatus : s.status with _ | code
    · have hfail := hfailed.2 hstatus
      simp only [hfail] at hok
      exact absurd hok (by simp)
    · simp
  case error =>
    have hnone := hfailed.1 herror
    simp [hnone, hcode]

theorem Accounted.handleTimer (h : s.Accounted) (hstep : s.handleTimer = some s') : s'.Accounted := by
  unfold ExecLoop.handleTimer at hstep
  split at hstep
  · obtain rfl := Option.some.inj hstep
    have hsame : ∀ channel, (if s.reads channel = .waiting then AsyncRead.queued none else s.reads channel) = .done ↔
        s.reads channel = .done := by
      intro channel
      split_ifs with hwaiting
      · simp [hwaiting]
      · rfl
    refine { h with ended := fun _ _ => .inr rfl, cut := fun _ => rfl, bytes := ?bytes, pending := ?pending,
                    returned := ?returned }
    case bytes =>
      intro channel
      rw [← h.bytes channel]
      simp only
      split_ifs with hwaiting
      · rw [hwaiting]
        rfl
      · rfl
    case pending =>
      have hpending := h.pending
      simp only [outstanding, hsame] at hpending ⊢
      exact hpending
    case returned => exact fun hreturned => ⟨(h.returned hreturned).1, .inr rfl⟩
  · obtain rfl := Option.some.inj hstep
    exact { h with returned := fun hreturned => ⟨(h.returned hreturned).1, .inr rfl⟩ }
  · exact absurd hstep (by simp)

theorem Accounted.finish (h : s.Accounted) (hstep : s.finish = some s') : s'.Accounted := by
  obtain ⟨⟨-, hout, herr, hwait, htimer⟩, hstep⟩ := Option.ite_none_right_eq_some.1 hstep
  obtain rfl := Option.some.inj hstep
  have hzero : s.outstanding = 0 := by simp [outstanding, hout, herr, hwait]
  exact { h with returned := fun _ => ⟨h.pending.trans hzero, htimer⟩ }

theorem Accounted.step (h : s.Accounted) (e : LoopEvent) (hstep : ExecLoop.step s e = some s') : s'.Accounted := by
  cases e with
  | readBytes channel bytes => exact h.readBytes hstep
  | readEnd channel => exact h.readEnd hstep
  | exit code => exact h.exit hstep
  | waitError => exact h.waitError hstep
  | expire => exact h.expire hstep
  | handleRead channel => exact h.handleRead hstep
  | handleWait => exact h.handleWait hstep
  | handleTimer => exact h.handleTimer hstep
  | finish => exact h.finish hstep

/-- **The books of every run.** -/
theorem accounted_run (timeoutSeconds : ℤ) (events : List LoopEvent) : (run (start timeoutSeconds) events).Accounted :=
  Guarded.always (fun _ e _ h hstep => h.step e hstep) (start timeoutSeconds) events (accounted_start timeoutSeconds)

theorem done_of_outstanding (h : s.outstanding = 0) : (∀ channel, s.reads channel = .done) ∧ s.wait = .done := by
  simp only [outstanding, Nat.add_eq_zero_iff] at h
  obtain ⟨⟨hout, herr⟩, hwait⟩ := h
  refine ⟨fun channel => ?_, by simpa using hwait⟩
  cases channel with
  | out => simpa using hout
  | err => simpa using herr

/-- **A loop that has returned is complete.** -/
theorem Accounted.complete (h : s.Accounted) (hreturned : s.returned = true) : s.Complete := by
  obtain ⟨hzero, -⟩ := h.returned hreturned
  obtain ⟨hreads, hwait⟩ := done_of_outstanding (h.pending.symm.trans hzero)
  have hwaited := h.waited
  rw [Waited, hwait] at hwaited
  refine ⟨fun channel => ?_, ⟨hwait, hwaited⟩, ?_, fun channel => ?_⟩
  · rcases h.ended channel (.inr (hreads channel)) with hend | hclosed
    · exact .inl hend
    · exact .inr ⟨hclosed, h.cut hclosed⟩
  · have hthree := h.counted
    omega
  · have hbytes := h.bytes channel
    rw [hreads channel] at hbytes
    simpa [inFlight] using hbytes

/-! ## The timer and the last completion -/

theorem Accounted.pending_pos (h : s.Accounted) {e : LoopEvent} (he : s.Completes e) : 0 < s.pending := by
  rw [h.pending]
  cases e with
  | handleRead channel =>
    have hcount := outstanding_read s channel (by rw [he]; simp) .done
    simp only [if_true] at hcount
    omega
  | handleWait =>
    have hqueued : s.wait = .queued := he
    simp [outstanding, hqueued]
  | _ => exact absurd he id

/-- **What an event does to the counter and the timer.** -/
theorem step_timer {e : LoopEvent} (hstep : ExecLoop.step s e = some s') :
    (s.Completes e ∧ s'.pending = s.pending - 1 ∧
      s'.timer = if s.pending - 1 = 0 ∧ s.timer = .waiting then .cancelled else s.timer) ∨
    (¬ s.Completes e ∧ s'.pending = s.pending ∧
      (s'.timer = s.timer ∨ s.timer = .waiting ∧ s'.timer = .expired ∨ e = .handleTimer ∧ s'.timer = .done)) := by
  cases e with
  | readBytes channel bytes =>
    obtain ⟨-, hstep⟩ := Option.ite_none_right_eq_some.1 hstep
    obtain rfl := Option.some.inj hstep
    exact .inr ⟨id, rfl, .inl rfl⟩
  | readEnd channel =>
    obtain ⟨-, hstep⟩ := Option.ite_none_right_eq_some.1 hstep
    obtain rfl := Option.some.inj hstep
    exact .inr ⟨id, rfl, .inl rfl⟩
  | exit code =>
    obtain ⟨-, hstep⟩ := Option.ite_none_right_eq_some.1 hstep
    obtain rfl := Option.some.inj hstep
    exact .inr ⟨id, rfl, .inl rfl⟩
  | waitError =>
    obtain ⟨-, hstep⟩ := Option.ite_none_right_eq_some.1 hstep
    obtain rfl := Option.some.inj hstep
    exact .inr ⟨id, rfl, .inl rfl⟩
  | expire =>
    obtain ⟨hwaiting, hstep⟩ := Option.ite_none_right_eq_some.1 hstep
    obtain rfl := Option.some.inj hstep
    exact .inr ⟨id, rfl, .inr (.inl ⟨hwaiting, rfl⟩)⟩
  | handleRead channel =>
    simp only [ExecLoop.step, ExecLoop.handleRead] at hstep
    split at hstep
    · rename_i hread
      obtain rfl := Option.some.inj hstep
      exact .inr ⟨fun hnone => by simp [Completes, hread] at hnone, rfl, .inl rfl⟩
    · rename_i hread
      obtain rfl := Option.some.inj hstep
      exact .inl ⟨hread, rfl, rfl⟩
    · exact absurd hstep (by simp)
  | handleWait =>
    obtain ⟨hqueued, hstep⟩ := Option.ite_none_right_eq_some.1 hstep
    obtain rfl := Option.some.inj hstep
    exact .inl ⟨hqueued, rfl, rfl⟩
  | handleTimer =>
    simp only [ExecLoop.step, ExecLoop.handleTimer] at hstep
    split at hstep
    · obtain rfl := Option.some.inj hstep
      exact .inr ⟨id, rfl, .inr (.inr ⟨rfl, rfl⟩)⟩
    · obtain rfl := Option.some.inj hstep
      exact .inr ⟨id, rfl, .inr (.inr ⟨rfl, rfl⟩)⟩
    · exact absurd hstep (by simp)
  | finish =>
    obtain ⟨-, hstep⟩ := Option.ite_none_right_eq_some.1 hstep
    obtain rfl := Option.some.inj hstep
    exact .inr ⟨id, rfl, .inl rfl⟩

/-- nothing outstanding, and the timer is recalled or was never there -/
def Recalled (s : ExecLoop) : Prop := s.pending = 0 → s.timer ≠ .waiting ∧ s.timer ≠ .expired

/-- nothing outstanding, and the handler of the expired timer still to run -/
def Overtaken (s : ExecLoop) : Prop := s.pending = 0 ∧ s.timer = .expired

theorem Recalled.step {e : LoopEvent} (h : s.Recalled) (ha : s.Accounted) (he : s.Recallable e)
    (hstep : ExecLoop.step s e = some s') : s'.Recalled := by
  intro hzero
  obtain ⟨hcompletes, hpending, htimer⟩ | ⟨-, hpending, htimer⟩ := step_timer hstep
  · have hpos := ha.pending_pos hcompletes
    have hlate := he hcompletes (by omega)
    rw [htimer]
    split_ifs with hcancel
    · simp
    · exact ⟨fun hwaiting => hcancel ⟨by omega, hwaiting⟩, hlate⟩
  · obtain ⟨hwaiting, hexpired⟩ := h (hpending.symm.trans hzero)
    rcases htimer with hsame | ⟨hset, -⟩ | ⟨-, hdone⟩
    · rw [hsame]
      exact ⟨hwaiting, hexpired⟩
    · exact absurd hset hwaiting
    · simp [hdone]

theorem Overtaken.step {e : LoopEvent} (h : s.Overtaken) (ha : s.Accounted) (he : s.OnTime e)
    (hstep : ExecLoop.step s e = some s') : s'.Overtaken := by
  obtain ⟨hzero, hexpired⟩ := h
  obtain ⟨hcompletes, -⟩ | ⟨-, hpending, htimer⟩ := step_timer hstep
  · have hpos := ha.pending_pos hcompletes
    omega
  · refine ⟨hpending.trans hzero, ?_⟩
    rcases htimer with hsame | ⟨hset, -⟩ | ⟨rfl, -⟩
    · exact hsame.trans hexpired
    · exact absurd (hset.symm.trans hexpired) (by simp)
    · have hpos := he hexpired
      omega

theorem Completes.possible {e : LoopEvent} (h : s.Completes e) : ∃ s', ExecLoop.step s e = some s' := by
  apply Option.isSome_iff_exists.1
  cases e with
  | handleRead channel =>
    have hread : s.reads channel = .queued none := h
    simp [ExecLoop.step, ExecLoop.handleRead, hread]
  | handleWait =>
    have hqueued : s.wait = .queued := h
    simp [ExecLoop.step, ExecLoop.handleWait, hqueued]
  | _ => exact absurd h id

/-- the last completion overtakes the timer's handler -/
theorem overtaken_of_not_recallable {e : LoopEvent} (h : ¬ s.Recallable e) :
    (Guarded.step ExecLoop.step s e).Overtaken := by
  simp only [Recallable, Classical.not_imp, not_not] at h
  obtain ⟨hcompletes, hone, hexpired⟩ := h
  obtain ⟨s', hstep⟩ := hcompletes.possible
  rw [Guarded.step_of_some hstep]
  obtain ⟨-, hpending, htimer⟩ | ⟨hnot, -⟩ := step_timer hstep
  · refine ⟨by omega, ?_⟩
    rw [htimer, if_neg (by simp [hexpired]), hexpired]
  · exact absurd hcompletes hnot

/-! ## Runs -/

theorem onTime_of_recallable {events : List LoopEvent} (ha : s.Accounted) (hr : s.Recalled)
    (h : Run.Steps (Guarded.step ExecLoop.step) Recallable s events) :
    Run.Steps (Guarded.step ExecLoop.step) OnTime s events := by
  rw [Run.Steps.iff_splits]
  rintro before e after rfl
  have hbefore := ((Run.Steps.append_iff s before (e :: after)).1 h).1
  obtain ⟨-, hrecalled⟩ := Guarded.invariant (I := fun s => s.Accounted ∧ s.Recalled)
    (fun t e t' ht he hstep => ⟨ht.1.step e hstep, ht.2.step ht.1 he hstep⟩) s before ⟨ha, hr⟩ hbefore
  cases e with
  | handleTimer =>
    intro hexpired
    by_contra hzero
    exact (hrecalled (Nat.eq_zero_of_not_pos hzero)).2 hexpired
  | _ => trivial

/-- a loop whose last completion has overtaken the timer's handler does not return before that has run -/
theorem recallable_of_returned {events : List LoopEvent} (ha : s.Accounted)
    (hreturned : (run s events).returned = true)
    (h : Run.Steps (Guarded.step ExecLoop.step) OnTime s events) :
    Run.Steps (Guarded.step ExecLoop.step) Recallable s events := by
  rw [Run.Steps.iff_splits]
  rintro before e after rfl
  by_contra hnot
  obtain ⟨-, -, hafter⟩ := (Run.Steps.append_iff s before (e :: after)).1 h
  have haccounted := Guarded.always (I := Accounted) (fun _ e _ ht hstep => ht.step e hstep) s (before ++ [e]) ha
  rw [run, Guarded.run, Run.run_append] at hreturned
  rw [Guarded.run, Run.run_append] at haccounted
  obtain ⟨hend, hlate⟩ := Guarded.invariant (I := fun s => s.Accounted ∧ s.Overtaken)
    (fun t e t' ht he hstep => ⟨ht.1.step e hstep, ht.2.step ht.1 he hstep⟩) _ after
    ⟨haccounted, overtaken_of_not_recallable hnot⟩ hafter
  have hdone := (hend.returned hreturned).2
  rw [hlate.2] at hdone
  simp at hdone

theorem complete_run (timeoutSeconds : ℤ) (events : List LoopEvent)
    (h : (run (start timeoutSeconds) events).returned = true) : (run (start timeoutSeconds) events).Complete :=
  (accounted_run timeoutSeconds events).complete h

/-- **The real outcome.** A run has it if the last completion never finds the handler of the expired timer in the queue;
and if a run returns, only then. -/
theorem real_outcome (timeoutSeconds : ℤ) (events : List LoopEvent) :
    (Run.Steps (Guarded.step step) Recallable (start timeoutSeconds) events →
      RealOutcome (start timeoutSeconds) events) ∧
    ((run (start timeoutSeconds) events).returned = true → RealOutcome (start timeoutSeconds) events →
      Run.Steps (Guarded.step step) Recallable (start timeoutSeconds) events) := by
  have hrecalled : (start timeoutSeconds).Recalled := fun hzero => absurd hzero (by simp [start])
  constructor
  · intro h
    exact ⟨fun before _ => complete_run timeoutSeconds before,
      onTime_of_recallable (accounted_start timeoutSeconds) hrecalled h⟩
  · intro hreturned h
    exact recallable_of_returned (accounted_start timeoutSeconds) hreturned h.onTime

/-- a command that writes two bytes and exits with 0 -/
def echo : List LoopEvent :=
  [.readBytes .out [0x6F, 0x6B], .handleRead .out, .exit 0, .readEnd .out, .readEnd .err, .handleRead .out,
    .handleRead .err, .handleWait, .handleTimer, .finish]

theorem echo_real : RealOutcome (start 5) echo := (real_outcome 5 echo).1 (by decide)

/-- the same command, and the timer expires before the last handler runs -/
def echoLate : List LoopEvent :=
  [.readBytes .out [0x6F, 0x6B], .handleRead .out, .exit 0, .readEnd .out, .readEnd .err, .handleRead .out, .expire,
    .handleRead .err, .handleWait, .handleTimer, .finish]

/-- **A success that is reported as a timeout**: everything has been handled when `timed_out` is set. -/
theorem success_timed_out :
    (run (start 5) (echoLate.take 9)).decrements = 3 ∧ (run (start 5) (echoLate.take 9)).timedOut = false ∧
    (run (start 5) echoLate).returned = true ∧ (run (start 5) echoLate).exitCode = 0 ∧
    (run (start 5) echoLate).captured .out = [0x6F, 0x6B] ∧ (run (start 5) echoLate).timedOut = true ∧
    ¬ RealOutcome (start 5) echoLate := by
  refine ⟨by decide, by decide, by decide, by decide, by decide, by decide, fun h => ?_⟩
  exact absurd h.onTime (by decide)

/-! ## The loop of a process -/

/-- `exec` with its process, seen as its loop alone -/
structure Shows (s : Exec) (l : ExecLoop) : Prop where
  phase : s.phase ≠ .writing
  reads : l.reads = s.reads
  pipesOpen : l.pipesOpen = s.pipesOpen
  wait : l.wait = s.wait
  status : s.wait ≠ .waiting → s.exited.isSome = true ∧ l.status = s.exited
  waitFailed : l.waitFailed = false
  timer : l.timer = s.timer
  pending : l.pending = s.pending
  captured : l.captured = s.captured
  exitCode : l.exitCode = s.exitCode
  timedOut : l.timedOut = s.timedOut
  returned : l.returned = true ↔ s.phase = .returned

variable {e e' : Exec} {l l' : ExecLoop}

theorem Shows.of_step (event : LoopEvent) (hstep : ExecLoop.step l event = some l') (h : Shows e' l') :
    ∃ events, Shows e' (run l events) := by
  refine ⟨[event], ?_⟩
  rw [run, Guarded.run, Run.run_cons, Guarded.step_of_some hstep]
  exact h

/-- the process leaves alone what `exec` reports, and exits once -/
theorem childStep_reported {n : ℕ} (h : e.childStep n = some e') :
    e'.captured = e.captured ∧ e'.exitCode = e.exitCode ∧ e'.timedOut = e.timedOut ∧
      (e.exited.isSome = true → e'.exited = e.exited) := by
  unfold Exec.childStep at h
  split_ifs at h with hexited
  split at h
  · obtain rfl := Option.some.inj h
    exact ⟨rfl, rfl, rfl, fun hsome => absurd hsome hexited⟩
  · split_ifs at h
    obtain rfl := Option.some.inj h
    exact ⟨rfl, rfl, rfl, fun _ => rfl⟩
  · simp only at h
    split_ifs at h
    · obtain rfl := Option.some.inj h
      exact ⟨rfl, rfl, rfl, fun _ => rfl⟩
    · obtain rfl := Option.some.inj h
      exact ⟨rfl, rfl, rfl, fun _ => rfl⟩

theorem Shows.child (h : Shows e l) {n : ℕ} (hstep : e.childStep n = some e') : Shows e' l := by
  obtain ⟨hcaptured, hcode, htimedOut, hexited⟩ := childStep_reported hstep
  obtain ⟨-, -, hphase, -, -, hpipes, hreads, hwait, htimer, hpending, -⟩ := Exec.childStep_kept hstep
  refine ⟨?_, h.reads.trans hreads.symm, h.pipesOpen.trans hpipes.symm, h.wait.trans hwait.symm, ?_, h.waitFailed,
    h.timer.trans htimer.symm, h.pending.trans hpending.symm, h.captured.trans hcaptured.symm,
    h.exitCode.trans hcode.symm, h.timedOut.trans htimedOut.symm, ?_⟩
  · rw [hphase]
    exact h.phase
  · rw [hwait]
    intro hnot
    obtain ⟨hsome, hstatus⟩ := h.status hnot
    rw [hexited hsome]
    exact ⟨hsome, hstatus⟩
  · rw [hphase]
    exact h.returned

theorem Shows.readReady (h : Shows e l) {channel : Channel} {n : ℕ} (hstep : e.readReady channel n = some e') :
    ∃ events, Shows e' (run l events) := by
  obtain ⟨⟨hphase, hread⟩, hstep⟩ := Option.ite_none_right_eq_some.1 hstep
  have hwaiting : l.reads channel = .waiting := (congrFun h.reads channel).trans hread
  simp only at hstep
  split_ifs at hstep with hpipe hexited
  · obtain rfl := Option.some.inj hstep
    have hne : (e.pipe channel).take (min (n + 1) bufferSize) ≠ [] := by
      simp [hpipe, bufferSize]
    have hsize : ((e.pipe channel).take (min (n + 1) bufferSize)).length ≤ bufferSize := by
      rw [List.length_take]
      omega
    exact Shows.of_step (.readBytes channel ((e.pipe channel).take (min (n + 1) bufferSize)))
      (if_pos ⟨hwaiting, hne, hsize⟩) { h with reads := congrArg (Function.update · channel _) h.reads }
  · obtain rfl := Option.some.inj hstep
    exact Shows.of_step (.readEnd channel) (if_pos hwaiting)
      { h with reads := congrArg (Function.update · channel _) h.reads }

theorem Shows.waitReady (h : Shows e l) (hstep : e.waitReady = some e') : ∃ events, Shows e' (run l events) := by
  obtain ⟨⟨-, hwait, hexited⟩, hstep⟩ := Option.ite_none_right_eq_some.1 hstep
  obtain rfl := Option.some.inj hstep
  obtain ⟨code, hcode⟩ := Option.isSome_iff_exists.1 hexited
  exact Shows.of_step (.exit code) (if_pos (h.wait.trans hwait))
    { h with wait := rfl, status := fun _ => ⟨hexited, hcode.symm⟩ }

theorem Shows.expire (h : Shows e l) (hstep : e.expire = some e') : ∃ events, Shows e' (run l events) := by
  obtain ⟨⟨-, htimer⟩, hstep⟩ := Option.ite_none_right_eq_some.1 hstep
  obtain rfl := Option.some.inj hstep
  exact Shows.of_step .expire (if_pos (h.timer.trans htimer)) { h with timer := rfl }

theorem Shows.pendingDone (h : Shows e l) : Shows e.pendingDone l.pendingDone :=
  { h with
    timer := by simp only [ExecLoop.pendingDone, Exec.pendingDone, h.timer, h.pending]
    pending := congrArg (· - 1) h.pending }

theorem Shows.handleRead (h : Shows e l) {channel : Channel} (hstep : e.handleRead channel = some e') :
    ∃ events, Shows e' (run l events) := by
  obtain ⟨-, hstep⟩ := Option.ite_none_right_eq_some.1 hstep
  have hsame := congrFun h.reads channel
  rcases hread : e.reads channel with _ | (_ | bytes) | _
  · simp [hread] at hstep
  · simp only [hread] at hstep
    obtain rfl := Option.some.inj hstep
    have hloop : ExecLoop.step l (.handleRead channel) =
        some { l with reads := Function.update l.reads channel .done }.pendingDone := by
      simp only [ExecLoop.step, ExecLoop.handleRead, hsame, hread]
    refine Shows.of_step (.handleRead channel) hloop ?_
    exact Shows.pendingDone { h with reads := congrArg (Function.update · channel _) h.reads }
  · simp only [hread] at hstep
    obtain rfl := Option.some.inj hstep
    have hloop : ExecLoop.step l (.handleRead channel) = some { l with
        captured := Function.update l.captured channel (l.captured channel ++ bytes)
        reads := Function.update l.reads channel (if l.pipesOpen then .waiting else .queued none) } := by
      simp only [ExecLoop.step, ExecLoop.handleRead, hsame, hread]
    refine Shows.of_step (.handleRead channel) hloop ?_
    exact { h with
      reads := by simp only [h.reads, h.pipesOpen]
      captured := by simp only [h.captured] }
  · simp [hread] at hstep

theorem Shows.handleWait (h : Shows e l) (hstep : e.handleWait = some e') : ∃ events, Shows e' (run l events) := by
  obtain ⟨⟨-, hqueued⟩, hstep⟩ := Option.ite_none_right_eq_some.1 hstep
  obtain rfl := Option.some.inj hstep
  obtain ⟨hexited, hstatus⟩ := h.status (by simp [hqueued])
  refine Shows.of_step .handleWait (if_pos (h.wait.trans hqueued)) (Shows.pendingDone ?_)
  exact { h with
    wait := rfl
    status := fun _ => ⟨hexited, hstatus⟩
    exitCode := by
      obtain ⟨code, hcode⟩ := Option.isSome_iff_exists.1 hexited
      simp [hstatus, hcode] }

theorem Shows.handleTimer (h : Shows e l) (hstep : e.handleTimer = some e') : ∃ events, Shows e' (run l events) := by
  obtain ⟨-, hstep⟩ := Option.ite_none_right_eq_some.1 hstep
  rcases htimer : e.timer with _ | _ | _ | _ | _
  · simp [htimer] at hstep
  · simp [htimer] at hstep
  · simp only [htimer] at hstep
    obtain rfl := Option.some.inj hstep
    have hloop : ExecLoop.step l .handleTimer = some { l with
        timer := .done
        timedOut := true
        pipesOpen := false
        reads := fun channel => if l.reads channel = .waiting then .queued none else l.reads channel } := by
      simp only [ExecLoop.step, ExecLoop.handleTimer, h.timer, htimer]
    refine Shows.of_step .handleTimer hloop ?_
    refine { h with
      reads := by simp only [h.reads]
      pipesOpen := rfl
      timer := rfl
      timedOut := rfl
      status := ?status }
    case status =>
      intro hnot
      obtain ⟨hexited, hstatus⟩ := h.status hnot
      obtain ⟨code, hcode⟩ := Option.isSome_iff_exists.1 hexited
      exact ⟨rfl, by simp [hstatus, hcode]⟩
  · simp only [htimer] at hstep
    obtain rfl := Option.some.inj hstep
    have hloop : ExecLoop.step l .handleTimer = some { l with timer := .done } := by
      simp only [ExecLoop.step, ExecLoop.handleTimer, h.timer, htimer]
    exact Shows.of_step .handleTimer hloop { h with timer := rfl }
  · simp [htimer] at hstep

theorem Shows.finish (h : Shows e l) (hstep : e.finish = some e') : ∃ events, Shows e' (run l events) := by
  obtain ⟨⟨hphase, hout, herr, hwait, htimer⟩, hstep⟩ := Option.ite_none_right_eq_some.1 hstep
  obtain rfl := Option.some.inj hstep
  have hrunning : l.returned = false := by
    rw [← Bool.not_eq_true, h.returned, hphase]
    simp
  have hloop : ExecLoop.step l .finish = some { l with returned := true } := by
    refine if_pos ⟨hrunning, ?_⟩
    rw [h.reads, h.wait, h.timer]
    exact ⟨hout, herr, hwait, htimer⟩
  exact Shows.of_step .finish hloop { h with phase := by simp, returned := by simp }

/-- **An event of `exec` and its process** is one of the loop, or none. -/
theorem Shows.step (h : Shows e l) (event : Exec.ExecEvent) (hstep : Exec.step e event = some e') :
    ∃ events, Shows e' (run l events) := by
  cases event with
  | child n => exact ⟨[], h.child hstep⟩
  | write n =>
    simp only [Exec.step, Exec.writeStdin, if_pos h.phase] at hstep
    exact absurd hstep (by simp)
  | readReady channel n => exact h.readReady hstep
  | waitReady => exact h.waitReady hstep
  | expire => exact h.expire hstep
  | handleRead channel => exact h.handleRead hstep
  | handleWait => exact h.handleWait hstep
  | handleTimer => exact h.handleTimer hstep
  | finish => exact h.finish hstep

/-- before the loop starts -/
structure Unbegun (timeoutSeconds : ℤ) (e : Exec) : Prop where
  timeout : e.timeoutSeconds = timeoutSeconds
  reads : e.reads = fun _ => .waiting
  pipesOpen : e.pipesOpen = true
  wait : e.wait = .waiting
  pending : e.pending = 3
  captured : e.captured = fun _ => []
  exitCode : e.exitCode = -1
  timedOut : e.timedOut = false

theorem Unbegun.startLoop {timeoutSeconds : ℤ} (h : Unbegun timeoutSeconds e) :
    Shows e.startLoop (start timeoutSeconds) where
  phase := by simp [Exec.startLoop]
  reads := h.reads.symm
  pipesOpen := h.pipesOpen.symm
  wait := h.wait.symm
  status hnot := absurd h.wait hnot
  waitFailed := rfl
  timer := by simp only [start, Exec.startLoop, h.timeout]
  pending := h.pending.symm
  captured := h.captured.symm
  exitCode := h.exitCode.symm
  timedOut := h.timedOut.symm
  returned := by simp [start, Exec.startLoop]

/-- seen as the loop alone, once it has started -/
structure Shown (timeoutSeconds : ℤ) (e : Exec) : Prop where
  unbegun : e.phase = .writing → Unbegun timeoutSeconds e
  loop : e.phase ≠ .writing → ∃ events, Shows e (run (start timeoutSeconds) events)

theorem Unbegun.child {timeoutSeconds : ℤ} (h : Unbegun timeoutSeconds e) {n : ℕ} (hstep : e.childStep n = some e') :
    Unbegun timeoutSeconds e' := by
  obtain ⟨hcaptured, hcode, htimedOut, -⟩ := childStep_reported hstep
  obtain ⟨-, htimeout, -, -, -, hpipes, hreads, hwait, -, hpending, -⟩ := Exec.childStep_kept hstep
  exact ⟨htimeout.trans h.timeout, hreads.trans h.reads, hpipes.trans h.pipesOpen, hwait.trans h.wait,
    hpending.trans h.pending, hcaptured.trans h.captured, hcode.trans h.exitCode, htimedOut.trans h.timedOut⟩

/-- an event while the input is written: it is still written, or the loop starts -/
theorem Unbegun.step {timeoutSeconds : ℤ} (h : Unbegun timeoutSeconds e) (hphase : e.phase = .writing)
    (event : Exec.ExecEvent) (hstep : Exec.step e event = some e') :
    e'.phase = .writing ∧ Unbegun timeoutSeconds e' ∨ e' = e.startLoop := by
  cases event with
  | child n => exact .inl ⟨(Exec.childStep_kept hstep).2.2.1.trans hphase, h.child hstep⟩
  | write n =>
    simp only [Exec.step, Exec.writeStdin, if_neg (not_not.2 hphase)] at hstep
    split_ifs at hstep
    · exact .inr (Option.some.inj hstep).symm
    · obtain rfl := Option.some.inj hstep
      exact .inl ⟨hphase, ⟨h.timeout, h.reads, h.pipesOpen, h.wait, h.pending, h.captured, h.exitCode, h.timedOut⟩⟩
  | readReady channel n => simp [Exec.step, Exec.readReady, hphase] at hstep
  | waitReady => simp [Exec.step, Exec.waitReady, hphase] at hstep
  | expire => simp [Exec.step, Exec.expire, hphase] at hstep
  | handleRead channel => simp [Exec.step, Exec.handleRead, hphase] at hstep
  | handleWait => simp [Exec.step, Exec.handleWait, hphase] at hstep
  | handleTimer => simp [Exec.step, Exec.handleTimer, hphase] at hstep
  | finish => simp [Exec.step, Exec.finish, hphase] at hstep

theorem Shown.step {timeoutSeconds : ℤ} (h : Shown timeoutSeconds e) (event : Exec.ExecEvent)
    (hstep : Exec.step e event = some e') : Shown timeoutSeconds e' := by
  by_cases hphase : e.phase = .writing
  · rcases (h.unbegun hphase).step hphase event hstep with ⟨hwriting, hunbegun⟩ | rfl
    · exact ⟨fun _ => hunbegun, fun hnot => absurd hwriting hnot⟩
    · have hshows := (h.unbegun hphase).startLoop
      exact ⟨fun hwriting => absurd hwriting hshows.phase, fun _ => ⟨[], hshows⟩⟩
  · obtain ⟨events, hshows⟩ := h.loop hphase
    obtain ⟨more, hshows'⟩ := hshows.step event hstep
    refine ⟨fun hwriting => absurd hwriting hshows'.phase, fun _ => ⟨events ++ more, ?_⟩⟩
    rw [run, Guarded.run, Run.run_append]
    exact hshows'

/-- **Every run of `exec` with a process** shows a run of the loop. -/
theorem exec_shown (capacity : ℕ) (timeoutSeconds : ℤ) (stdinData : Bytes) (program : List ChildOp) (code : ℤ)
    (events : List Exec.ExecEvent) :
    Shown timeoutSeconds (Exec.run (Exec.start capacity timeoutSeconds stdinData program code) events) :=
  Guarded.always (fun _ event _ h hstep => h.step event hstep) _ events
    ⟨fun _ => ⟨rfl, rfl, rfl, rfl, rfl, rfl, rfl, rfl⟩, fun h => absurd rfl h⟩

/-- so what `exec` returns is the exit code of its process -/
theorem exec_returned (capacity : ℕ) (timeoutSeconds : ℤ) (stdinData : Bytes) (program : List ChildOp) (code : ℤ)
    (events : List Exec.ExecEvent) :
    (Exec.run (Exec.start capacity timeoutSeconds stdinData program code) events).phase = .returned →
      (Exec.run (Exec.start capacity timeoutSeconds stdinData program code) events).exited =
        some (Exec.run (Exec.start capacity timeoutSeconds stdinData program code) events).exitCode := by
  intro hreturned
  have hshown := exec_shown capacity timeoutSeconds stdinData program code events
  obtain ⟨shown, hshows⟩ := hshown.loop (by simp [hreturned])
  obtain ⟨hwait, hcode, -⟩ := (complete_run timeoutSeconds shown (hshows.returned.2 hreturned)).reaped
  have hstatus := hcode hshows.waitFailed
  rw [← (hshows.status (by rw [← hshows.wait, hwait]; simp)).2, hstatus, hshows.exitCode]

end ExecLoop

end Iotmp
