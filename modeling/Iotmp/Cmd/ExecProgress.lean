/-
When `cmd::exec` can always go on (`cmd.cpp`).

`exec` drains the outputs and arms its timer only after it has written all of `stdin_data`. Until then a process that
fills one of its output pipes waits for `exec`, and `exec` waits for it to read.

- `FitsPipes`: before the process has written more than a pipe holds to one of its outputs, it has read so often that
  the rest of its input fits into the pipe.
- `Behind`: how far the process is, while `exec` writes; `Draining`: what holds once the io_context runs.
- `not_deadlocked_draining`, `expire_draining`: from there on nothing is ever stuck, and a timer that was set can expire
  whenever `exec` waits.
- `Overfull.doomed`: a process that does not fit can be led into a deadlock.
- `exec_live_iff`: in every run `exec` is live exactly if the process fits, and, where a timeout is set, the input fits
  into the pipe at once.
Witness: `cat_live`. Counterexample: `cat_deadlocks`.
-/
import Mathlib.Tactic
import Iotmp.Cmd.Exec

namespace Iotmp

namespace Exec

/-! ## What the process needs -/

/-- the reads that take a byte at least, while the pipe is open -/
def readCount : List ChildOp → ℕ
  | [] => 0
  | .read 0 :: ops => readCount ops
  | .read (_ + 1) :: ops => readCount ops + 1
  | .write _ _ :: ops => readCount ops

/-- how much is written to one of the outputs -/
def written (channel : Channel) : List ChildOp → ℕ
  | [] => 0
  | .read _ :: ops => written channel ops
  | .write channel' data :: ops => (if channel' = channel then data.length else 0) + written channel ops

/-- by the time an output is more than full, what is left of the input fits into its pipe -/
def FitsPipes (capacity : ℕ) (stdinData : Bytes) (program : List ChildOp) : Prop :=
  ∀ before channel data after, program = before ++ .write channel data :: after →
    capacity < written channel before + data.length → stdinData.length ≤ capacity + readCount before

theorem readCount_append (ops ops' : List ChildOp) : readCount (ops ++ ops') = readCount ops + readCount ops' := by
  induction ops with
  | nil => simp [readCount]
  | cons op ops ih =>
    cases op with
    | write channel data => exact ih
    | read n =>
      cases n with
      | zero => exact ih
      | succ n =>
        simp only [List.cons_append, readCount, ih]
        omega

theorem written_append (channel : Channel) (ops ops' : List ChildOp) :
    written channel (ops ++ ops') = written channel ops + written channel ops' := by
  induction ops with
  | nil => simp [written]
  | cons op ops ih =>
    cases op with
    | read n => exact ih
    | write channel' data =>
      simp only [List.cons_append, written, ih]
      omega

/-! ## While the input is written -/

/-- the program at its start, where the first write has got `done` into the pipe -/
def resumed (done : Bytes) : List ChildOp → List ChildOp
  | .write channel data :: ops => .write channel (done ++ data) :: ops
  | ops => ops

/-- what the write that has begun has put into a pipe -/
def begun (channel : Channel) (done : Bytes) : List ChildOp → ℕ
  | .write channel' _ :: _ => if channel' = channel then done.length else 0
  | _ => 0

theorem resumed_nil (ops : List ChildOp) : resumed [] ops = ops := by
  unfold resumed
  split
  · simp
  · rfl

theorem begun_nil (channel : Channel) (ops : List ChildOp) : begun channel [] ops = 0 := by
  unfold begun
  split
  · simp
  · rfl

/-- the process has done the operations `before`, and `done` of the write after them -/
structure Behind (stdinData : Bytes) (program before : List ChildOp) (done : Bytes) (s : Exec) : Prop where
  program : program = before ++ resumed done s.program
  pipe : ∀ channel, (s.pipe channel).length ≤ written channel before + begun channel done s.program
  input : readCount before + s.stdin.length + s.rest.length ≤ stdinData.length

/-- what holds while `exec` writes -/
structure Feeding (stdinData : Bytes) (program : List ChildOp) (s : Exec) : Prop where
  stdinOpen : s.stdinOpen = true
  pipesOpen : s.pipesOpen = true
  reads : ∀ channel, s.reads channel = .waiting
  wait : s.wait = .waiting
  timer : s.timer = .unset
  pending : s.pending = 3
  behind : ∃ before done, Behind stdinData program before done s

/-- what is still to come of an operation of the io_context -/
def outstanding (s : Exec) : ℕ :=
  (if s.reads .out = .done then 0 else 1) + (if s.reads .err = .done then 0 else 1) + (if s.wait = .done then 0 else 1)

/-- what holds while the io_context runs -/
structure Draining (s : Exec) : Prop where
  stdinOpen : s.stdinOpen = false
  /-- a read ends without bytes only after the process has exited -/
  ended : ∀ channel, s.reads channel = .done ∨ s.reads channel = .queued none → s.exited.isSome = true
  closed : s.pipesOpen = false → s.exited.isSome = true ∧ ∀ channel, s.reads channel ≠ .waiting
  pending : s.pending = s.outstanding
  unset : s.timer = .unset → s.timeoutSeconds ≤ 0
  elapsed : s.timer = .cancelled ∨ s.timer = .done → s.pending = 0 ∨ s.pipesOpen = false

/-- the invariant -/
structure Sound (capacity : ℕ) (timeoutSeconds : ℤ) (stdinData : Bytes) (program : List ChildOp) (s : Exec) : Prop where
  capacity : s.capacity = capacity
  timeout : s.timeoutSeconds = timeoutSeconds
  feeding : s.phase = .writing → Feeding stdinData program s
  draining : s.phase = .running → Draining s

theorem sound_start (capacity : ℕ) (timeoutSeconds : ℤ) (stdinData : Bytes) (program : List ChildOp) (code : ℤ) :
    Sound capacity timeoutSeconds stdinData program (start capacity timeoutSeconds stdinData program code) where
  capacity := rfl
  timeout := rfl
  feeding _ := ⟨rfl, rfl, fun _ => rfl, rfl, rfl, rfl,
    [], [], by simp [start, resumed_nil], fun _ => Nat.zero_le _, by simp [start, readCount]⟩
  draining h := absurd h (by simp [start])

/-! ## What the events keep -/

variable {capacity : ℕ} {timeoutSeconds : ℤ} {stdinData : Bytes} {program : List ChildOp} {s s' : Exec}

/-- what the process changes -/
theorem childStep_kept {n : ℕ} (h : s.childStep n = some s') :
    s'.capacity = s.capacity ∧ s'.timeoutSeconds = s.timeoutSeconds ∧ s'.phase = s.phase ∧ s'.rest = s.rest ∧
      s'.stdinOpen = s.stdinOpen ∧ s'.pipesOpen = s.pipesOpen ∧ s'.reads = s.reads ∧ s'.wait = s.wait ∧
      s'.timer = s.timer ∧ s'.pending = s.pending ∧ (s.exited.isSome = true → s'.exited.isSome = true) := by
  unfold childStep at h
  split_ifs at h with hexited
  split at h
  · obtain rfl := Option.some.inj h
    exact ⟨rfl, rfl, rfl, rfl, rfl, rfl, rfl, rfl, rfl, rfl, fun _ => rfl⟩
  · split_ifs at h
    obtain rfl := Option.some.inj h
    exact ⟨rfl, rfl, rfl, rfl, rfl, rfl, rfl, rfl, rfl, rfl, id⟩
  · simp only at h
    split_ifs at h
    · obtain rfl := Option.some.inj h
      exact ⟨rfl, rfl, rfl, rfl, rfl, rfl, rfl, rfl, rfl, rfl, id⟩
    · obtain rfl := Option.some.inj h
      exact ⟨rfl, rfl, rfl, rfl, rfl, rfl, rfl, rfl, rfl, rfl, id⟩

/-- **One operation of the process**, while its input is open. -/
theorem Behind.child {before : List ChildOp} {done : Bytes} (h : Behind stdinData program before done s)
    (hopen : s.stdinOpen = true) {n : ℕ} (hstep : s.childStep n = some s') :
    ∃ before done, Behind stdinData program before done s' := by
  obtain ⟨hprogram, hpipe, hinput⟩ := h
  unfold childStep at hstep
  split_ifs at hstep
  rcases hops : s.program with _ | ⟨_ | ⟨channel, data⟩, ops⟩
  · rw [hops] at hstep hprogram hpipe
    obtain rfl := Option.some.inj hstep
    exact ⟨before, done, by simpa [hops] using hprogram, by simpa [hops] using hpipe, hinput⟩
  · rename_i k
    simp only [hops, hopen] at hstep hprogram hpipe
    split_ifs at hstep with hblocked
    obtain rfl := Option.some.inj hstep
    refine ⟨before ++ [.read k], [], ?_, fun c => ?_, ?_⟩
    · rw [resumed_nil, List.append_assoc]
      exact hprogram
    · have hc := hpipe c
      simp only [begun] at hc
      simp only [begun_nil, written_append, written]
      omega
    · rw [readCount_append]
      cases k with
      | zero => simpa [readCount] using hinput
      | succ k =>
        have hne : s.stdin ≠ [] := fun hnil => hblocked (by simp [hnil])
        have hpos := List.length_pos_of_ne_nil hne
        simp only [readCount, List.length_drop]
        omega
  · simp only [hops] at hstep hprogram hpipe
    split_ifs at hstep with hdata hroom
    · obtain rfl := Option.some.inj hstep
      subst hdata
      refine ⟨before ++ [.write channel done], [], ?_, fun c => ?_, ?_⟩
      · rw [resumed_nil, List.append_assoc]
        simpa [resumed] using hprogram
      · have hc := hpipe c
        simp only [begun] at hc
        simp only [begun_nil, written_append, written]
        omega
      · rw [readCount_append]
        simpa [readCount] using hinput
    · obtain rfl := Option.some.inj hstep
      refine ⟨before, done ++ data.take (min (n + 1) (s.capacity - (s.pipe channel).length)), ?_, fun c => ?_, hinput⟩
      · simpa [resumed, List.append_assoc] using hprogram
      · have hc := hpipe c
        simp only [begun] at hc ⊢
        by_cases heq : channel = c
        · subst heq
          simp only [if_true, Function.update_self, List.length_append] at hc ⊢
          omega
        · rw [if_neg heq] at hc ⊢
          rw [Function.update_of_ne (Ne.symm heq)]
          exact hc

/-- the process has to write to a full pipe, and `exec` has to write to a full pipe: the process does not fit -/
theorem not_full_of_fits {before : List ChildOp} {done : Bytes} (h : Behind stdinData program before done s)
    (hfits : FitsPipes s.capacity stdinData program) {channel : Channel} {data : Bytes} {ops : List ChildOp}
    (hops : s.program = .write channel data :: ops) (hdata : data ≠ []) (hrest : s.rest ≠ [])
    (hfull : s.capacity - (s.pipe channel).length = 0) : s.stdin.length < s.capacity := by
  obtain ⟨hprogram, hpipe, hinput⟩ := h
  rw [hops] at hprogram
  have hc := hpipe channel
  rw [hops] at hc
  simp only [begun, if_true] at hc
  have hpos := List.length_pos_of_ne_nil hdata
  have hleft := List.length_pos_of_ne_nil hrest
  have hmuch := hfits before channel (done ++ data) ops hprogram (by rw [List.length_append]; omega)
  omega

theorem Feeding.child (h : Feeding stdinData program s) {n : ℕ} (hstep : s.childStep n = some s') :
    Feeding stdinData program s' := by
  obtain ⟨before, done, hbehind⟩ := h.behind
  obtain ⟨-, -, -, -, hstdin, hpipes, hreads, hwait, htimer, hpending, -⟩ := childStep_kept hstep
  refine ⟨hstdin.trans h.stdinOpen, hpipes.trans h.pipesOpen, fun c => ?_, hwait.trans h.wait, htimer.trans h.timer,
    hpending.trans h.pending, hbehind.child h.stdinOpen hstep⟩
  rw [hreads]
  exact h.reads c

theorem Draining.child (h : Draining s) {n : ℕ} (hstep : s.childStep n = some s') : Draining s' := by
  obtain ⟨-, htimeout, -, -, hstdin, hpipes, hreads, hwait, htimer, hpending, hexited⟩ := childStep_kept hstep
  constructor
  case stdinOpen => exact hstdin.trans h.stdinOpen
  case ended =>
    intro c hc
    rw [hreads] at hc
    exact hexited (h.ended c hc)
  case closed =>
    intro hclosed
    rw [hpipes] at hclosed
    obtain ⟨hgone, hnone⟩ := h.closed hclosed
    rw [hreads]
    exact ⟨hexited hgone, hnone⟩
  case pending => rw [hpending, h.pending, outstanding, outstanding, hreads, hwait]
  case unset =>
    rw [htimer, htimeout]
    exact h.unset
  case elapsed =>
    rw [htimer, hpending, hpipes]
    exact h.elapsed

/-- the loop starts with three operations to wait for -/
theorem Feeding.startLoop (h : Feeding stdinData program s) : Draining s.startLoop := by
  constructor
  case stdinOpen => rfl
  case ended =>
    intro c hc
    have hwaiting : s.startLoop.reads c = .waiting := h.reads c
    simp [hwaiting] at hc
  case closed =>
    intro hclosed
    have hopen : s.startLoop.pipesOpen = true := h.pipesOpen
    simp [hopen] at hclosed
  case pending =>
    have hreads : s.startLoop.reads = s.reads := rfl
    have hwait : s.startLoop.wait = s.wait := rfl
    have hpending : s.startLoop.pending = s.pending := rfl
    simp [hpending, outstanding, hreads, hwait, h.reads, h.wait, h.pending]
  case unset =>
    intro hunset
    simp only [Exec.startLoop] at hunset ⊢
    split_ifs at hunset with htimeout
    omega
  case elapsed =>
    intro helapsed
    simp only [Exec.startLoop] at helapsed
    split_ifs at helapsed <;> simp at helapsed

theorem Feeding.write (h : Feeding stdinData program s) (n room : ℕ) :
    Feeding stdinData program { s with
      stdin := s.stdin ++ s.rest.take (min (n + 1) room), rest := s.rest.drop (min (n + 1) room) } := by
  obtain ⟨before, done, hprogram, hpipe, hinput⟩ := h.behind
  refine ⟨h.stdinOpen, h.pipesOpen, h.reads, h.wait, h.timer, h.pending, before, done, hprogram, hpipe, ?_⟩
  simp only [List.length_append, List.length_take, List.length_drop]
  omega

/-- one operation less to wait for -/
theorem Draining.pendingDone {t : Exec} (h : Draining s) (hout : t.outstanding + 1 = s.outstanding)
    (hstdin : t.stdinOpen = s.stdinOpen) (hpipes : t.pipesOpen = s.pipesOpen) (hpending : t.pending = s.pending)
    (htimer : t.timer = s.timer) (htimeout : t.timeoutSeconds = s.timeoutSeconds)
    (hended : ∀ channel, t.reads channel = .done ∨ t.reads channel = .queued none → t.exited.isSome = true)
    (hclosed : s.pipesOpen = false → t.exited.isSome = true ∧ ∀ channel, t.reads channel ≠ .waiting) :
    Draining t.pendingDone := by
  constructor
  case stdinOpen => exact hstdin.trans h.stdinOpen
  case ended => exact hended
  case closed =>
    intro hc
    exact hclosed (hpipes.symm.trans hc)
  case pending =>
    change t.pending - 1 = t.outstanding
    rw [hpending, h.pending]
    omega
  case unset =>
    intro hunset
    simp only [Exec.pendingDone] at hunset ⊢
    split_ifs at hunset
    rw [htimeout]
    exact h.unset (htimer.symm.trans hunset)
  case elapsed =>
    intro helapsed
    change t.pending - 1 = 0 ∨ t.pipesOpen = false
    by_cases hzero : t.pending - 1 = 0
    · exact .inl hzero
    · simp only [Exec.pendingDone, hzero, false_and, if_false, htimer] at helapsed
      rcases h.elapsed helapsed with hnone | hshut
      · omega
      · exact .inr (hpipes.trans hshut)

theorem outstanding_update (s : Exec) (channel : Channel) (h : s.reads channel ≠ .done) :
    { s with reads := Function.update s.reads channel .done }.outstanding + 1 = s.outstanding := by
  cases channel with
  | out =>
    simp only [outstanding, Function.update_self, if_true, Function.update_of_ne (show Channel.err ≠ .out by decide),
      if_neg h]
    omega
  | err =>
    simp only [outstanding, Function.update_self, if_true, Function.update_of_ne (show Channel.out ≠ .err by decide),
      if_neg h]
    omega

/-- a read that changes without an end -/
theorem outstanding_same (s : Exec) (channel : Channel) {r : AsyncRead} (h : s.reads channel ≠ .done) (hr : r ≠ .done) :
    { s with reads := Function.update s.reads channel r }.outstanding = s.outstanding := by
  cases channel with
  | out =>
    simp only [outstanding, Function.update_self, Function.update_of_ne (show Channel.err ≠ .out by decide), if_neg h,
      if_neg hr]
  | err =>
    simp only [outstanding, Function.update_self, Function.update_of_ne (show Channel.out ≠ .err by decide), if_neg h,
      if_neg hr]

theorem Draining.readReady (h : Draining s) {channel : Channel} {n : ℕ} (hstep : s.readReady channel n = some s') :
    Draining s' := by
  unfold Exec.readReady at hstep
  split_ifs at hstep with hready hdata hexited
  · obtain rfl := Option.some.inj hstep
    refine { h with ended := ?ended, closed := ?closed, pending := ?pending }
    case ended =>
      intro c hc
      by_cases heq : c = channel
      · subst heq
        simp at hc
      · exact h.ended c (by simpa [Function.update_of_ne heq] using hc)
    case closed =>
      intro hclosed
      exact absurd hready.2 ((h.closed hclosed).2 channel)
    case pending => exact h.pending.trans (outstanding_same s channel (by simp [hready.2]) (by simp)).symm
  · obtain rfl := Option.some.inj hstep
    refine { h with ended := ?ended, closed := ?closed, pending := ?pending }
    case ended =>
      intro _ _
      exact hexited
    case closed =>
      intro hclosed
      exact absurd hready.2 ((h.closed hclosed).2 channel)
    case pending => exact h.pending.trans (outstanding_same s channel (by simp [hready.2]) (by simp)).symm

theorem Draining.waitReady (h : Draining s) (hstep : s.waitReady = some s') : Draining s' := by
  unfold Exec.waitReady at hstep
  split_ifs at hstep with hready
  obtain rfl := Option.some.inj hstep
  refine { h with pending := h.pending.trans ?_ }
  simp [outstanding, hready.2.1]

theorem Draining.expire (h : Draining s) (hstep : s.expire = some s') : Draining s' := by
  unfold Exec.expire at hstep
  split_ifs at hstep with hready
  obtain rfl := Option.some.inj hstep
  exact { h with unset := by simp, elapsed := by simp }

theorem Draining.handleRead (h : Draining s) {channel : Channel} (hstep : s.handleRead channel = some s') :
    Draining s' := by
  unfold Exec.handleRead at hstep
  obtain ⟨hphase, hstep⟩ := Option.ite_none_right_eq_some.1 hstep
  rcases hr : s.reads channel with _ | ⟨_ | bytes⟩ | _
  · simp [hr] at hstep
  · -- the end of the pipe
    simp only [hr] at hstep
    obtain rfl := Option.some.inj hstep
    have hexited := h.ended channel (.inr hr)
    refine h.pendingDone (t := { s with reads := Function.update s.reads channel .done })
      (outstanding_update s channel (by simp [hr])) rfl rfl rfl rfl rfl (fun _ _ => hexited) ?_
    intro hclosed
    refine ⟨hexited, ?_⟩
    intro c
    by_cases heq : c = channel
    · subst heq
      simp
    · simpa [Function.update_of_ne heq] using (h.closed hclosed).2 c
  · -- another read starts
    simp only [hr] at hstep
    obtain rfl := Option.some.inj hstep
    refine { h with ended := ?ended, closed := ?closed, pending := ?pending }
    case ended =>
      intro c hc
      by_cases heq : c = channel
      · subst heq
        simp only [Function.update_self] at hc
        split_ifs at hc with hopen
        · simp at hc
        · exact (h.closed (by simpa using hopen)).1
      · exact h.ended c (by simpa only [Function.update_of_ne heq] using hc)
    case closed =>
      intro hclosed
      have hshut : s.pipesOpen = false := hclosed
      refine ⟨(h.closed hshut).1, ?_⟩
      intro c
      by_cases heq : c = channel
      · subst heq
        simp [hshut]
      · simpa only [Function.update_of_ne heq] using (h.closed hshut).2 c
    case pending =>
      refine h.pending.trans (outstanding_same s channel (by simp [hr]) ?_).symm
      split_ifs <;> simp
  · simp [hr] at hstep

theorem Draining.handleWait (h : Draining s) (hstep : s.handleWait = some s') : Draining s' := by
  unfold Exec.handleWait at hstep
  split_ifs at hstep with hready
  obtain rfl := Option.some.inj hstep
  refine h.pendingDone (t := { s with exitCode := s.exited.getD (-1), wait := .done }) ?_ rfl rfl rfl rfl rfl h.ended
    h.closed
  simp only [outstanding, hready.2, reduceCtorEq, if_true, if_false]

theorem Draining.handleTimer (h : Draining s) (hstep : s.handleTimer = some s') : Draining s' := by
  unfold Exec.handleTimer at hstep
  obtain ⟨hphase, hstep⟩ := Option.ite_none_right_eq_some.1 hstep
  rcases ht : s.timer with _ | _ | _ | _ | _
  · simp [ht] at hstep
  · simp [ht] at hstep
  · -- the process is terminated and the pipes are closed
    simp only [ht] at hstep
    obtain rfl := Option.some.inj hstep
    have hread : ∀ c, (if s.reads c = .waiting then .queued none else s.reads c) ≠ AsyncRead.waiting := by
      intro c
      split_ifs with hwaiting
      · simp
      · exact hwaiting
    have hdone : ∀ c,
        (if s.reads c = .waiting then .queued none else s.reads c) = AsyncRead.done ↔ s.reads c = .done := by
      intro c
      split_ifs with hwaiting
      · simp [hwaiting]
      · rfl
    refine { h with ended := fun _ _ => rfl, closed := fun _ => ⟨rfl, hread⟩, pending := ?_, unset := by simp,
                    elapsed := fun _ => .inr rfl }
    change s.pending = _
    rw [h.pending]
    simp only [outstanding, hdone]
  · simp only [ht] at hstep
    obtain rfl := Option.some.inj hstep
    exact { h with unset := by simp, elapsed := fun _ => h.elapsed (.inl ht) }
  · simp [ht] at hstep

/-- what the events of the loop leave as it is -/
def InLoop (s s' : Exec) : Prop :=
  s.phase = .running ∧ s'.phase = .running ∧ s'.capacity = s.capacity ∧ s'.timeoutSeconds = s.timeoutSeconds

theorem readReady_inLoop {channel : Channel} {n : ℕ} (hstep : s.readReady channel n = some s') : InLoop s s' := by
  unfold Exec.readReady at hstep
  split_ifs at hstep with hready
  · obtain rfl := Option.some.inj hstep
    exact ⟨hready.1, hready.1, rfl, rfl⟩
  · obtain rfl := Option.some.inj hstep
    exact ⟨hready.1, hready.1, rfl, rfl⟩

theorem waitReady_inLoop (hstep : s.waitReady = some s') : InLoop s s' := by
  unfold Exec.waitReady at hstep
  split_ifs at hstep with hready
  obtain rfl := Option.some.inj hstep
  exact ⟨hready.1, hready.1, rfl, rfl⟩

theorem expire_inLoop (hstep : s.expire = some s') : InLoop s s' := by
  unfold Exec.expire at hstep
  split_ifs at hstep with hready
  obtain rfl := Option.some.inj hstep
  exact ⟨hready.1, hready.1, rfl, rfl⟩

theorem handleRead_inLoop {channel : Channel} (hstep : s.handleRead channel = some s') : InLoop s s' := by
  unfold Exec.handleRead at hstep
  obtain ⟨hphase, hstep⟩ := Option.ite_none_right_eq_some.1 hstep
  split at hstep
  · obtain rfl := Option.some.inj hstep
    exact ⟨hphase, hphase, rfl, rfl⟩
  · obtain rfl := Option.some.inj hstep
    exact ⟨hphase, hphase, rfl, rfl⟩
  · cases hstep

theorem handleWait_inLoop (hstep : s.handleWait = some s') : InLoop s s' := by
  unfold Exec.handleWait at hstep
  split_ifs at hstep with hready
  obtain rfl := Option.some.inj hstep
  exact ⟨hready.1, hready.1, rfl, rfl⟩

theorem handleTimer_inLoop (hstep : s.handleTimer = some s') : InLoop s s' := by
  unfold Exec.handleTimer at hstep
  obtain ⟨hphase, hstep⟩ := Option.ite_none_right_eq_some.1 hstep
  split at hstep
  · obtain rfl := Option.some.inj hstep
    exact ⟨hphase, hphase, rfl, rfl⟩
  · obtain rfl := Option.some.inj hstep
    exact ⟨hphase, hphase, rfl, rfl⟩
  · cases hstep

theorem Sound.looped (h : Sound capacity timeoutSeconds stdinData program s) (hloop : InLoop s s')
    (hd : Draining s → Draining s') : Sound capacity timeoutSeconds stdinData program s' := by
  obtain ⟨hphase, hphase', hcap, htime⟩ := hloop
  refine ⟨hcap.trans h.capacity, htime.trans h.timeout, fun hw => ?_, fun _ => hd (h.draining hphase)⟩
  rw [hphase'] at hw
  exact absurd hw (by simp)

/-- **Every event** keeps the invariant. -/
theorem Sound.step (h : Sound capacity timeoutSeconds stdinData program s) (e : ExecEvent)
    (hstep : step s e = some s') : Sound capacity timeoutSeconds stdinData program s' := by
  cases e with
  | child n =>
    obtain ⟨hcap, htime, hphase, -⟩ := childStep_kept hstep
    exact ⟨hcap.trans h.capacity, htime.trans h.timeout, fun hw => (h.feeding (hphase.symm.trans hw)).child hstep,
      fun hr => (h.draining (hphase.symm.trans hr)).child hstep⟩
  | write n =>
    simp only [Exec.step] at hstep
    unfold writeStdin at hstep
    split_ifs at hstep with hphase hend
    · obtain rfl := Option.some.inj hstep
      exact ⟨h.capacity, h.timeout, fun hw => absurd hw (by simp [Exec.startLoop]),
        fun _ => (h.feeding (not_not.1 hphase)).startLoop⟩
    · simp only at hstep
      split_ifs at hstep with hroom
      obtain rfl := Option.some.inj hstep
      have hwriting := not_not.1 hphase
      exact ⟨h.capacity, h.timeout, fun _ => (h.feeding hwriting).write n _,
        fun hr => absurd (hwriting.symm.trans hr) (by simp)⟩
  | readReady channel n => exact h.looped (readReady_inLoop hstep) fun hd => hd.readReady hstep
  | waitReady => exact h.looped (waitReady_inLoop hstep) fun hd => hd.waitReady hstep
  | expire => exact h.looped (expire_inLoop hstep) fun hd => hd.expire hstep
  | handleRead channel => exact h.looped (handleRead_inLoop hstep) fun hd => hd.handleRead hstep
  | handleWait => exact h.looped (handleWait_inLoop hstep) fun hd => hd.handleWait hstep
  | handleTimer => exact h.looped (handleTimer_inLoop hstep) fun hd => hd.handleTimer hstep
  | finish =>
    simp only [Exec.step] at hstep
    unfold finish at hstep
    split_ifs at hstep
    obtain rfl := Option.some.inj hstep
    exact ⟨h.capacity, h.timeout, fun hw => absurd hw (by simp), fun hr => absurd hr (by simp)⟩

/-- **Every run** keeps the invariant. -/
theorem sound_run (capacity : ℕ) (timeoutSeconds : ℤ) (stdinData : Bytes) (program : List ChildOp) (code : ℤ)
    (events : List ExecEvent) :
    Sound capacity timeoutSeconds stdinData program
      (run (start capacity timeoutSeconds stdinData program code) events) :=
  Guarded.always (fun _ e _ hs hstep => Sound.step hs e hstep) _ events (sound_start _ _ _ _ _)

/-! ## Once the loop runs -/

/-- when no handler can be called and nothing can end, a read still waits for a byte, and the wait for the exit -/
theorem Waiting.read (h : s.Waiting) (hphase : s.phase = .running) (channel : Channel) :
    s.reads channel = .done ∨ s.reads channel = .waiting ∧ s.pipe channel = [] ∧ s.exited = none := by
  have hready : s.readReady channel 0 = none := h.2 (.readReady channel 0) rfl
  have hhandle : s.handleRead channel = none := h.2 (.handleRead channel) rfl
  rcases hr : s.reads channel with _ | ⟨_ | bytes⟩ | _
  · refine .inr ⟨rfl, ?_⟩
    unfold Exec.readReady at hready
    rw [if_pos ⟨hphase, hr⟩] at hready
    split_ifs at hready with hdata hexited
    exact ⟨not_not.1 hdata, by simpa using hexited⟩
  · simp [Exec.handleRead, hphase, hr] at hhandle
  · simp [Exec.handleRead, hphase, hr] at hhandle
  · exact .inl rfl

theorem Waiting.wait (h : s.Waiting) (hphase : s.phase = .running) : s.wait = .done ∨ s.exited = none := by
  have hready : s.waitReady = none := h.2 .waitReady rfl
  have hhandle : s.handleWait = none := h.2 .handleWait rfl
  rcases hw : s.wait with _ | _ | _
  · refine .inr ?_
    simpa [Exec.waitReady, hphase, hw] using hready
  · simp [Exec.handleWait, hphase, hw] at hhandle
  · exact .inl rfl

theorem Waiting.timer (h : s.Waiting) (hphase : s.phase = .running) :
    s.timer = .waiting ∨ s.timer = .unset ∨ s.timer = .done := by
  have hhandle : s.handleTimer = none := h.2 .handleTimer rfl
  rcases ht : s.timer with _ | _ | _ | _ | _
  · exact .inr (.inl rfl)
  · exact .inl rfl
  · simp [Exec.handleTimer, hphase, ht] at hhandle
  · simp [Exec.handleTimer, hphase, ht] at hhandle
  · exact .inr (.inr rfl)

/-- without a timer to wait for, the process is what `exec` waits for -/
theorem Waiting.alive (h : s.Waiting) (hphase : s.phase = .running) (htimer : s.timer = .unset ∨ s.timer = .done) :
    s.exited = none := by
  have hfinish : s.finish = none := h.2 .finish rfl
  by_contra halive
  have hread : ∀ channel, s.reads channel = .done := fun channel => by
    rcases h.read hphase channel with hdone | ⟨-, -, hnone⟩
    · exact hdone
    · exact absurd hnone halive
  have hwait := (h.wait hphase).resolve_right halive
  rw [Exec.finish, if_pos ⟨hphase, hread .out, hread .err, hwait, htimer⟩] at hfinish
  cases hfinish

theorem Draining.reads_waiting (hd : Draining s) (h : s.Waiting) (hphase : s.phase = .running)
    (halive : s.exited = none) (channel : Channel) : s.reads channel = .waiting ∧ s.pipe channel = [] := by
  rcases h.read hphase channel with hdone | ⟨hwaiting, hempty, -⟩
  · have hgone := hd.ended channel (.inl hdone)
    simp [halive] at hgone
  · exact ⟨hwaiting, hempty⟩

/-- **Once the loop runs**, something can always happen. -/
theorem not_deadlocked_draining (hd : Draining s) (hcapacity : 0 < s.capacity) (hphase : s.phase = .running) :
    ¬ s.Deadlocked := by
  rintro ⟨hrunning, hstuck⟩
  have hwaiting : s.Waiting := ⟨hrunning, fun e _ => hstuck e⟩
  have hexpire : s.expire = none := hstuck .expire
  have htimer : s.timer = .unset ∨ s.timer = .done := by
    rcases hwaiting.timer hphase with ht | ht
    · simp [Exec.expire, hphase, ht] at hexpire
    · exact ht
  have halive := hwaiting.alive hphase htimer
  have hchild : s.childStep 0 = none := hstuck (.child 0)
  unfold childStep at hchild
  rw [halive] at hchild
  rcases hops : s.program with _ | ⟨_ | ⟨channel, data⟩, ops⟩
  · simp [hops] at hchild
  · -- the input is closed, so that a read does not wait
    simp [hops, hd.stdinOpen] at hchild
  · -- a full pipe has something to read
    have hempty := (hd.reads_waiting hwaiting hphase halive channel).2
    have hroom : s.capacity ≠ 0 := by omega
    simp only [hops, hempty, List.length_nil, Nat.sub_zero, hroom] at hchild
    split_ifs at hchild <;> simp_all

/-- **Once the loop runs**, a timer that was set can expire whenever `exec` waits. -/
theorem expire_draining (hd : Draining s) (hphase : s.phase = .running) (htimeout : 0 < s.timeoutSeconds)
    (h : s.Waiting) : (s.expire).isSome := by
  rcases h.timer hphase with ht | ht
  · simp [Exec.expire, hphase, ht]
  · exfalso
    have halive := h.alive hphase ht
    have hreads := hd.reads_waiting h hphase halive
    rcases ht with hunset | hdone
    · have hnone := hd.unset hunset
      omega
    · rcases hd.elapsed (.inr hdone) with hzero | hshut
      · have hcount := hd.pending
        simp only [outstanding, (hreads .out).1, hzero, reduceCtorEq, if_false] at hcount
        omega
      · exact (hd.closed hshut).2 .out (hreads .out).1

/-! ## While `exec` writes -/

theorem Waiting.full (h : s.Waiting) (hphase : s.phase = .writing) :
    s.rest ≠ [] ∧ s.exited = none ∧ s.capacity ≤ s.stdin.length := by
  have hwrite : s.writeStdin 0 = none := h.2 (.write 0) rfl
  unfold writeStdin at hwrite
  rw [if_neg (by simp [hphase])] at hwrite
  split_ifs at hwrite with hend
  simp only at hwrite
  split_ifs at hwrite with hroom
  rw [not_or] at hend
  exact ⟨hend.1, by simpa using hend.2, by omega⟩

/-- **While `exec` writes**, a process that fits does not block it for ever. -/
theorem not_deadlocked_feeding (hf : Feeding stdinData program s) (hcapacity : 0 < s.capacity)
    (hphase : s.phase = .writing) (hfits : FitsPipes s.capacity stdinData program) : ¬ s.Deadlocked := by
  rintro ⟨hwriting, hstuck⟩
  obtain ⟨hrest, halive, hfull⟩ := Waiting.full ⟨hwriting, fun e _ => hstuck e⟩ hphase
  obtain ⟨before, done, hbehind⟩ := hf.behind
  have hchild : s.childStep 0 = none := hstuck (.child 0)
  unfold childStep at hchild
  rw [halive] at hchild
  rcases hops : s.program with _ | ⟨_ | ⟨channel, data⟩, ops⟩
  · simp [hops] at hchild
  · have hne : s.stdin ≠ [] := fun hnil => by
      rw [hnil, List.length_nil] at hfull
      omega
    simp [hops, hne] at hchild
  · simp only [hops, Option.isSome_none, Bool.false_eq_true, if_false] at hchild
    split_ifs at hchild with hdata hroom
    have hlow := not_full_of_fits hbehind hfits hops hdata hrest hroom
    omega

/-- an input that fits into its pipe is written without waiting -/
theorem not_waiting_feeding (hf : Feeding stdinData program s) (hphase : s.phase = .writing)
    (hinput : stdinData.length ≤ s.capacity) : ¬ s.Waiting := by
  intro h
  obtain ⟨hrest, -, hfull⟩ := h.full hphase
  obtain ⟨before, done, hbehind⟩ := hf.behind
  have hpos := List.length_pos_of_ne_nil hrest
  have htotal := hbehind.input
  omega

/-- **A process that fits** leaves `exec` live. -/
theorem Sound.live (h : Sound capacity timeoutSeconds stdinData program s) (hcapacity : 0 < capacity)
    (hfits : FitsPipes capacity stdinData program) (hinput : 0 < timeoutSeconds → stdinData.length ≤ capacity) :
    s.Live := by
  rw [← h.capacity] at hcapacity hfits
  rw [← h.timeout, ← h.capacity] at hinput
  rcases hphase : s.phase with _ | _ | _
  · have hf := h.feeding hphase
    exact ⟨not_deadlocked_feeding hf hcapacity hphase hfits, fun htimeout hwaiting =>
      absurd hwaiting (not_waiting_feeding hf hphase (hinput htimeout))⟩
  · have hd := h.draining hphase
    exact ⟨not_deadlocked_draining hd hcapacity hphase, fun htimeout hwaiting =>
      expire_draining hd hphase htimeout hwaiting⟩
  · exact ⟨fun hdead => hdead.1 hphase, fun _ hwaiting => absurd hphase hwaiting.1⟩

/-! ## A process that does not fit -/

/-- both sides write to a full pipe -/
theorem deadlocked_of_full {channel : Channel} {data : Bytes} {ops : List ChildOp} (hphase : s.phase = .writing)
    (halive : s.exited = none) (hrest : s.rest ≠ []) (hstdin : s.capacity ≤ s.stdin.length)
    (hops : s.program = .write channel data :: ops) (hdata : data ≠ [])
    (hpipe : s.capacity ≤ (s.pipe channel).length) : s.Deadlocked := by
  refine ⟨by simp [hphase], fun e => ?_⟩
  have hroom : s.capacity - s.stdin.length = 0 := by omega
  have hroom' : s.capacity - (s.pipe channel).length = 0 := by omega
  cases e with
  | child n => simp [step, childStep, halive, hops, hdata, hroom']
  | write n => simp [step, writeStdin, hphase, hrest, halive, hroom]
  | readReady channel n => simp [step, Exec.readReady, hphase]
  | waitReady => simp [step, Exec.waitReady, hphase]
  | expire => simp [step, Exec.expire, hphase]
  | handleRead channel => simp [step, Exec.handleRead, hphase]
  | handleWait => simp [step, Exec.handleWait, hphase]
  | handleTimer => simp [step, Exec.handleTimer, hphase]
  | finish => simp [step, finish, hphase]

/-- there is a run into a deadlock -/
def Doomed (s : Exec) : Prop := ∃ events, (run s events).Deadlocked

theorem Doomed.of_step {e : ExecEvent} (h : step s e = some s') (hd : Doomed s') : Doomed s := by
  obtain ⟨events, hdead⟩ := hd
  refine ⟨e :: events, ?_⟩
  rw [run, Guarded.run, Run.run_cons, Guarded.step_of_some h]
  exact hdead

/-- the process waits at a full pipe, and `exec` fills the input -/
theorem doomed_of_blocked {channel : Channel} {data : Bytes} {ops : List ChildOp} (hcapacity : 0 < s.capacity)
    (hphase : s.phase = .writing) (halive : s.exited = none) (hstdin : s.stdin = [])
    (hrest : s.capacity < s.rest.length) (hops : s.program = .write channel data :: ops) (hdata : data ≠ [])
    (hpipe : s.capacity ≤ (s.pipe channel).length) : Doomed s := by
  have hne : s.rest ≠ [] := List.ne_nil_of_length_pos (by omega)
  have hstep : step s (.write s.capacity) = some { s with
      stdin := s.rest.take s.capacity, rest := s.rest.drop s.capacity } := by
    simp [step, writeStdin, hphase, hne, halive, hstdin, hcapacity.ne']
  have hleft : s.rest.drop s.capacity ≠ [] := List.ne_nil_of_length_pos (by rw [List.length_drop]; omega)
  have hfull : s.capacity ≤ (s.rest.take s.capacity).length := by rw [List.length_take]; omega
  exact Doomed.of_step hstep ⟨[], deadlocked_of_full hphase halive hleft hfull hops hdata hpipe⟩

/-- the process has the operations `before` to do, and then a write that is more than its pipe holds -/
structure Overfull (before : List ChildOp) (channel : Channel) (data : Bytes) (after : List ChildOp) (s : Exec) :
    Prop where
  capacity : 0 < s.capacity
  phase : s.phase = .writing
  exited : s.exited = none
  stdin : s.stdin = []
  program : s.program = before ++ .write channel data :: after
  rest : s.capacity + readCount before < s.rest.length
  pipe : s.capacity < (s.pipe channel).length + written channel before + data.length
  bounded : ∀ channel, (s.pipe channel).length ≤ s.capacity

theorem childStep_write {channel : Channel} {data : Bytes} {ops : List ChildOp} (halive : s.exited = none)
    (hops : s.program = .write channel data :: ops) (hdata : data ≠ [])
    (hroom : (s.pipe channel).length < s.capacity) (n : ℕ) :
    step s (.child n) = some { s with
      pipe := Function.update s.pipe channel
        (s.pipe channel ++ data.take (min (n + 1) (s.capacity - (s.pipe channel).length)))
      program := .write channel (data.drop (min (n + 1) (s.capacity - (s.pipe channel).length))) :: ops } := by
  have hpos : s.capacity - (s.pipe channel).length ≠ 0 := by omega
  simp [step, childStep, halive, hops, hdata, hpos]

/-- a write that fits is done at once -/
theorem Doomed.of_write {channel : Channel} {data : Bytes} {ops : List ChildOp} (halive : s.exited = none)
    (hops : s.program = .write channel data :: ops) (hfits : (s.pipe channel).length + data.length ≤ s.capacity)
    (h : Doomed { s with pipe := Function.update s.pipe channel (s.pipe channel ++ data), program := ops }) :
    Doomed s := by
  by_cases hdata : data = []
  · subst hdata
    have hstep : step s (.child 0) = some { s with program := ops } := by simp [step, childStep, halive, hops]
    rw [List.append_nil, Function.update_eq_self] at h
    exact Doomed.of_step hstep h
  · have hpos := List.length_pos_of_ne_nil hdata
    have hall : data.length ≤ min (data.length + 1) (s.capacity - (s.pipe channel).length) := by omega
    have hwrite := childStep_write halive hops hdata (by omega) data.length
    rw [List.take_of_length_le hall, List.drop_of_length_le hall] at hwrite
    refine Doomed.of_step hwrite (Doomed.of_step (e := .child 0) ?_ h)
    simp [step, childStep, halive]

theorem Doomed.of_read_nothing {ops : List ChildOp} (halive : s.exited = none) (hops : s.program = .read 0 :: ops)
    (h : Doomed { s with program := ops }) : Doomed s := by
  have hstep : step s (.child 0) = some { s with program := ops } := by simp [step, childStep, halive, hops]
  exact Doomed.of_step hstep h

/-- `exec` writes one byte, and the process reads it -/
theorem Doomed.of_read_byte {k : ℕ} {ops : List ChildOp} (hcapacity : 0 < s.capacity) (hphase : s.phase = .writing)
    (halive : s.exited = none) (hstdin : s.stdin = []) (hrest : s.rest ≠ []) (hops : s.program = .read (k + 1) :: ops)
    (h : Doomed { s with stdin := [], rest := s.rest.drop 1, program := ops }) : Doomed s := by
  have hone : min 1 s.capacity = 1 := by omega
  have hwrite : step s (.write 0) = some { s with stdin := s.rest.take 1, rest := s.rest.drop 1 } := by
    simp [step, writeStdin, hphase, hrest, halive, hstdin, hcapacity.ne', hone]
  refine Doomed.of_step hwrite (Doomed.of_step (e := .child 0) ?_ h)
  simp [step, childStep, halive, hops, hrest]

/-- the process fills its pipe at once -/
theorem doomed_of_overflow {channel : Channel} {data : Bytes} {ops : List ChildOp} (hcapacity : 0 < s.capacity)
    (hphase : s.phase = .writing) (halive : s.exited = none) (hstdin : s.stdin = [])
    (hrest : s.capacity < s.rest.length) (hops : s.program = .write channel data :: ops) (hdata : data ≠ [])
    (hpipe : s.capacity < (s.pipe channel).length + data.length) : Doomed s := by
  by_cases hroom : (s.pipe channel).length < s.capacity
  · refine Doomed.of_step (childStep_write halive hops hdata hroom s.capacity)
      (doomed_of_blocked hcapacity hphase halive hstdin hrest rfl ?_ ?_)
    · exact List.ne_nil_of_length_pos (by simp only [List.length_drop]; omega)
    · simp only [Function.update_self, List.length_append, List.length_take]
      omega
  · exact doomed_of_blocked hcapacity hphase halive hstdin hrest hops hdata (by omega)

/-- **A process that does not fit** can be led into a deadlock. -/
theorem Overfull.doomed {before : List ChildOp} {channel : Channel} {data : Bytes} {after : List ChildOp}
    (h : Overfull before channel data after s) : Doomed s := by
  obtain ⟨hcapacity, hphase, halive, hstdin, hprogram, hrest, hpipe, hbounded⟩ := h
  -- by induction on the operations before the write: each is done at once, unless it is itself too much for its pipe
  induction before generalizing s with
  | nil =>
    simp only [written, readCount] at hpipe hrest
    have hmost := hbounded channel
    have hdata : data ≠ [] := by
      intro hnil
      simp only [hnil, List.length_nil] at hpipe
      omega
    exact doomed_of_overflow hcapacity hphase halive hstdin (by omega) hprogram hdata (by omega)
  | cons op before ih =>
    rcases op with ⟨_ | k⟩ | ⟨channel', data'⟩
    · exact Doomed.of_read_nothing halive hprogram (ih hcapacity hphase halive hstdin rfl hrest hpipe hbounded)
    · simp only [readCount] at hrest
      have hne : s.rest ≠ [] := List.ne_nil_of_length_pos (by omega)
      have hleft : s.capacity + readCount before < (s.rest.drop 1).length := by
        rw [List.length_drop]
        omega
      exact Doomed.of_read_byte hcapacity hphase halive hstdin hne hprogram
        (ih hcapacity hphase halive rfl rfl hleft hpipe hbounded)
    · simp only [readCount, written] at hrest hpipe
      by_cases hover : s.capacity < (s.pipe channel').length + data'.length
      · have hmost := hbounded channel'
        have hdata : data' ≠ [] := by
          intro hnil
          simp only [hnil, List.length_nil] at hover
          omega
        exact doomed_of_overflow hcapacity hphase halive hstdin (by omega) hprogram hdata hover
      · refine Doomed.of_write halive hprogram (by omega) (ih hcapacity hphase halive hstdin rfl hrest ?_ ?_)
        · by_cases heq : channel' = channel
          · subst heq
            simp only [if_true, Function.update_self, List.length_append] at hpipe ⊢
            omega
          · simp only [if_neg heq, Function.update_of_ne (Ne.symm heq)] at hpipe ⊢
            omega
        · intro c
          by_cases heq : c = channel'
          · subst heq
            simp only [Function.update_self, List.length_append]
            omega
          · simp only [Function.update_of_ne heq]
            exact hbounded c

theorem doomed_of_not_fits (timeoutSeconds : ℤ) (hcapacity : 0 < capacity)
    (hfits : ¬ FitsPipes capacity stdinData program) (code : ℤ) :
    Doomed (start capacity timeoutSeconds stdinData program code) := by
  simp only [FitsPipes, not_forall, not_le] at hfits
  obtain ⟨before, channel, data, after, hprogram, hover, hinput⟩ := hfits
  have hoverfull : Overfull before channel data after (start capacity timeoutSeconds stdinData program code) :=
    { capacity := hcapacity
      phase := rfl
      exited := rfl
      stdin := rfl
      program := hprogram
      rest := hinput
      pipe := by simpa [start] using hover
      bounded := fun _ => Nat.zero_le _ }
  exact hoverfull.doomed

/-- while the input does not fit, `exec` can be waiting with its timer not set -/
theorem not_live_of_large (hcapacity : 0 < capacity) (htimeout : 0 < timeoutSeconds)
    (hinput : capacity < stdinData.length) (code : ℤ) :
    ¬ (run (start capacity timeoutSeconds stdinData program code) [.write capacity]).Live := by
  have hne : stdinData ≠ [] := List.ne_nil_of_length_pos (by omega)
  have hleft : stdinData.drop capacity ≠ [] := List.ne_nil_of_length_pos (by rw [List.length_drop]; omega)
  have hfull : capacity - min capacity stdinData.length = 0 := by omega
  have hstep : step (start capacity timeoutSeconds stdinData program code) (.write capacity) =
      some { start capacity timeoutSeconds stdinData program code with
        stdin := stdinData.take capacity, rest := stdinData.drop capacity } := by
    simp [step, writeStdin, start, hne, hcapacity.ne']
  intro hlive
  rw [run, Guarded.run, Run.run_cons, Guarded.step_of_some hstep, Run.run_nil] at hlive
  have hwaiting : ({ start capacity timeoutSeconds stdinData program code with
      stdin := stdinData.take capacity, rest := stdinData.drop capacity } : Exec).Waiting := by
    refine ⟨by simp [start], fun e he => ?_⟩
    cases e with
    | child n => simp [ExecEvent.own] at he
    | write n => simp [step, writeStdin, start, hleft, hfull]
    | readReady channel n => simp [step, Exec.readReady, start]
    | waitReady => simp [step, Exec.waitReady, start]
    | expire => simp [ExecEvent.own] at he
    | handleRead channel => simp [step, Exec.handleRead, start]
    | handleWait => simp [step, Exec.handleWait, start]
    | handleTimer => simp [step, Exec.handleTimer, start]
    | finish => simp [step, finish, start]
  have hexpire := hlive.2 htimeout hwaiting
  simp [step, Exec.expire, start] at hexpire

/-- **When `exec` is live**: exactly if the process reads enough of its input before it fills an output, and, where a
timeout is set, if all of the input fits into its pipe. -/
theorem exec_live_iff (capacity : ℕ) (hcapacity : 0 < capacity) (timeoutSeconds : ℤ) (stdinData : Bytes)
    (program : List ChildOp) (code : ℤ) :
    (∀ events, (run (start capacity timeoutSeconds stdinData program code) events).Live) ↔
      FitsPipes capacity stdinData program ∧ (0 < timeoutSeconds → stdinData.length ≤ capacity) := by
  constructor
  · intro hlive
    constructor
    · by_contra hfits
      obtain ⟨events, hdead⟩ := doomed_of_not_fits timeoutSeconds hcapacity hfits code
      exact (hlive events).1 hdead
    · intro htimeout
      by_contra hinput
      exact not_live_of_large hcapacity htimeout (not_le.1 hinput) code (hlive _)
  · rintro ⟨hfits, hinput⟩ events
    exact (sound_run capacity timeoutSeconds stdinData program code events).live hcapacity hfits hinput

/-- a process that reads a request of two bytes and answers it, through pipes of two bytes -/
theorem cat_live : (run (start 2 5 [1, 2] [.read 2, .write .out [1, 2]] 0) [.write 1, .child 0, .child 1]).Live :=
  (exec_live_iff 2 (by decide) 5 [1, 2] [.read 2, .write .out [1, 2]] 0).2
    ⟨fun _ _ _ _ _ _ => by simp, fun _ => by simp⟩ _

/-- a process that copies its input byte by byte, and whose pipes hold one byte -/
theorem cat_deadlocks :
    (run (start 1 5 [1, 2, 3, 4] [.read 1, .write .out [1], .read 1, .write .out [2], .read 1, .write .out [3]] 0)
      [.write 0, .child 0, .write 0, .child 0, .child 0, .child 0, .write 0]).Deadlocked := by
  refine ⟨by decide, fun e => ?_⟩
  cases e <;> rfl

end Exec

end Iotmp
