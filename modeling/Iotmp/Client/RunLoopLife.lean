/-
How long `run_loop` lives, and how it comes back.

- `loop_escapes`: an exception leaves the loop only from a DISCONNECTED or a CONNECTION_ERROR that the callback threw on,
  and always from such a DISCONNECTED. `running_` stays up then, and nothing connects any more.
- `reconnects`: with a callback that does not throw, the loop of a running client comes to an authenticated connection
  from wherever it stands, once the server can be reached.
- `attempts_delayed`: it never attempts to connect twice without a delay in between, waited out or ended by an exception
  of its timer.
- `stop_returns`: after `stop()` has taken `running_` down it attempts once more at most, and it can end.
Witnesses: `loop_escapes_fragile`, `reconnects_refused`, `stop_returns_refused`.
-/
import Mathlib.Tactic
import Iotmp.Client.RunLoopOrder

namespace Iotmp

namespace RunLoop

variable {callback : List Notification → Option Thrown} {credentials : Credentials} {s s' : RunLoop}

/-! ## Exceptions that leave the loop -/

theorem Threw.not_last {notified : List Notification} {a : ClientState} {thrown : Thrown}
    (h : Threw callback notified a thrown) (b : ClientState) : ¬ Last callback notified b := by
  rintro ⟨htook, -⟩
  rw [h.1] at htook
  simp at htook

theorem Threw.ne_nil {notified : List Notification} {a : ClientState} {thrown : Thrown}
    (h : Threw callback notified a thrown) : notified ≠ [] := by
  rintro rfl
  obtain ⟨-, reason, hlast⟩ := h
  simp at hlast

theorem Threw.state_eq {notified : List Notification} {a b : ClientState} {thrown thrown' : Thrown}
    (h : Threw callback notified a thrown) (h' : Threw callback notified b thrown') : a = b := by
  obtain ⟨-, reason, hlast⟩ := h
  obtain ⟨-, reason', hlast'⟩ := h'
  rw [hlast] at hlast'
  simpa using congrArg (Option.map Notification.state) hlast'

/-- what the callback throws on a DISCONNECTED, nothing catches -/
theorem Standing.escaped_of_threw (h : Standing callback s) {thrown : Thrown}
    (hthrew : Threw callback s.notified .disconnected thrown) : s.point = .escaped := by
  have hplace := h.place
  have hnot := hthrew.not_last
  cases hp : s.point with
  | escaped => rfl
  | checkRunning | connecting | returned =>
    rw [hp] at hplace
    rcases hplace with hnil | hlast
    · exact absurd hnil hthrew.ne_nil
    · exact absurd hlast (hnot _)
  | caught thrown' =>
    rw [hp] at hplace
    rcases hplace with ⟨state, hstate, hthrew'⟩ | hlast | hlast | hlast | hlast
    · exact absurd (hthrew'.state_eq hthrew) hstate
    all_goals exact absurd hlast (hnot _)
  | disconnected =>
    rw [hp] at hplace
    rcases hplace with hlast | hlast | hlast
    all_goals exact absurd hlast (hnot _)
  | accepted | awaitStreams =>
    rw [hp] at hplace
    exact absurd ⟨hplace.1, [], hplace.2⟩ (hnot .authenticated)
  | authFailed reason =>
    rw [hp] at hplace
    exact absurd hplace.1 (hnot _)
  | awaitConnect | connectError | connected | authenticating | awaitWrite | awaitAnswer | authenticated
  | streamsReady | checkConnected | awaitMessage | checkReconnect | delaying =>
    rw [hp] at hplace
    exact absurd hplace (hnot _)

/-- the loop is gone, and the client still counts as running -/
def Gone (notified : List Notification) (s : RunLoop) : Prop :=
  s.point = .escaped ∧ s.running = true ∧ s.notified = notified

theorem Gone.step {notified : List Notification} (h : Gone notified s) {e : LoopEvent} (he : e ≠ .stop)
    (hs : step callback credentials s e = some s') : Gone notified s' := by
  obtain ⟨hpoint, hrunning, hnotified⟩ := h
  rw [RunLoop.step.eq_def] at hs
  cases e with
  | advance => simp [RunLoop.advance, hpoint] at hs
  | elsewhere subscriber =>
    dsimp only at hs
    split_ifs at hs
    cases hs
    exact ⟨hpoint, hrunning, hnotified⟩
  | stop => exact absurd rfl he
  | stopped => simp [hrunning] at hs
  | connect | write | read | initializeStreams | wake | delayThrows => simp [hpoint] at hs

/-- while the client is not being stopped, the loop stands where it can -/
theorem Fits.standing (h : Fits callback s) (hrunning : s.running = true) : s.halted = false ∧ Standing callback s := by
  rcases h with h | ⟨-, hstopped, -⟩
  · exact h
  · rw [hrunning] at hstopped
    simp at hstopped

/-- **Exceptions of the callback.** While the client is not stopped, an exception has left the loop only if the callback
threw on its last notification, a DISCONNECTED or a CONNECTION_ERROR, and always if it threw on a DISCONNECTED. From
then on `running_` stays up, so that `start()` does nothing, and nothing is notified any more. -/
theorem loop_escapes (callback : List Notification → Option Thrown) (credentials : Credentials) (subscriber : Subscriber)
    (events : List LoopEvent) (hrunning : (run callback credentials (start subscriber) events).running = true) :
    let s := run callback credentials (start subscriber) events
    (s.point = .escaped →
        ∃ state thrown, (state = .disconnected ∨ state = .connectionError) ∧ Threw callback s.notified state thrown) ∧
      ((∃ thrown, Threw callback s.notified .disconnected thrown) → s.point = .escaped) ∧
      (s.point = .escaped → ∀ more, (∀ e ∈ more, e ≠ .stop) → Gone s.notified (run callback credentials s more)) := by
  intro s
  have hfits : Fits callback s := fits_run subscriber events
  obtain ⟨-, h⟩ := hfits.standing hrunning
  refine ⟨fun hp => ?_, fun ⟨thrown, hthrew⟩ => h.escaped_of_threw hthrew, fun hp more hmore => ?_⟩
  · have hplace := h.place
    rw [hp] at hplace
    exact hplace
  · have hstep : ∀ t e t', Gone s.notified t → e ≠ .stop → step callback credentials t e = some t' →
        Gone s.notified t' := fun t e t' h he hs => h.step he hs
    exact Guarded.invariant_of_mem hstep s more ⟨hp, hrunning, rfl⟩ hmore

def guest : Credentials := { username := text "user", deviceId := text "device", devicePassword := text "secret" }

/-- a callback that throws on DISCONNECTED -/
def fragile (notified : List Notification) : Option Thrown :=
  if (notified.getLast?.map Notification.state) = some .disconnected then some .unknown else none

theorem loop_escapes_fragile :
    let s := run fragile guest (start { client := {} }) [.advance, .advance, .connect (.ok (some [])), .advance, .advance]
    s.point = .escaped ∧ ∀ more, (∀ e ∈ more, e ≠ .stop) → Gone s.notified (run fragile guest s more) := by
  intro s
  obtain ⟨-, hthrew, hgone⟩ := loop_escapes fragile guest { client := {} }
    [.advance, .advance, .connect (.ok (some [])), .advance, .advance] (by rfl)
  have hpoint := hthrew ⟨.unknown, by rfl, [], by rfl⟩
  exact ⟨hpoint, hgone hpoint⟩

/-! ## Coming back -/

/-- a step of the loop, or the end of what it waits for -/
def Completion : LoopEvent → Prop
  | .delayThrows | .elsewhere _ | .stop | .stopped => False
  | _ => True

theorem live_of_step {e : LoopEvent} (hs : step callback credentials s e = some s') : s.halted = false := by
  by_contra hhalted
  rw [RunLoop.step.eq_def, if_pos (by simpa using hhalted)] at hs
  simp at hs

theorem kept_running {e : LoopEvent} (he : Completion e) (hs : step callback credentials s e = some s') :
    s'.running = s.running ∧ s'.halted = s.halted := by
  rw [RunLoop.step.eq_def, if_neg (by simp [live_of_step hs])] at hs
  cases e with
  | advance => exact ⟨(kept_advance hs).running, (kept_advance hs).halted⟩
  | connect result =>
    dsimp only at hs
    split_ifs at hs
    rcases result with thrown | _ | message <;> cases hs <;> exact ⟨rfl, rfl⟩
  | write streamId thrown written =>
    dsimp only at hs
    split_ifs at hs
    cases hs
    exact ⟨(kept_writeConnect streamId thrown written).running, (kept_writeConnect streamId thrown written).halted⟩
  | read outcome thrown =>
    dsimp only at hs
    split_ifs at hs <;> cases hs
    · exact ⟨(kept_answer outcome thrown).running, (kept_answer outcome thrown).halted⟩
    · exact ⟨(kept_readMessage outcome thrown).running, (kept_readMessage outcome thrown).halted⟩
  | initializeStreams script thrown =>
    dsimp only at hs
    split_ifs at hs <;> cases hs <;> exact ⟨rfl, rfl⟩
  | wake =>
    dsimp only at hs
    split_ifs at hs
    cases hs
    exact ⟨rfl, rfl⟩
  | delayThrows | elsewhere | stop | stopped => exact he.elim

/-- the server has accepted the connection, and it is up -/
def Served (s : RunLoop) : Prop :=
  s.connected = true ∧
    (s.point = .awaitStreams ∨ s.point = .streamsReady ∨ s.point = .checkConnected ∨ s.point = .awaitMessage)

/-- how many steps are between a point and `connected_ = true` -/
def ahead : Bool → LoopPoint → ℕ
  | _, .accepted => 1
  | _, .authenticated => 2
  | _, .awaitAnswer => 3
  | _, .awaitWrite => 4
  | _, .authenticating => 5
  | _, .connected => 6
  | _, .awaitConnect => 7
  | _, .connecting => 8
  | _, .checkRunning => 9
  | _, .delaying => 10
  | _, .checkReconnect => 11
  | _, .disconnected => 12
  | _, .caught _ | _, .connectError _ | _, .authFailed _ => 13
  | _, .awaitMessage => 14
  | _, .checkConnected => 15
  | _, .streamsReady => 16
  | false, .awaitStreams => 17
  | true, .awaitStreams => 0
  | _, .returned | _, .escaped => 0

theorem notifyState_took (hcallback : ∀ notified, callback notified = none) (n : Notification) (next : LoopPoint)
    (handler : Thrown → LoopPoint) : (s.notifyState callback n next handler).point = next := by
  simp only [notifyState, hcallback]

theorem step_advance (hlive : s.halted = false) : step callback credentials s .advance = s.advance callback := by
  rw [RunLoop.step, if_neg (by simp [hlive])]

/-- some step of the loop brings it nearer -/
def Nearer (callback : List Notification → Option Thrown) (credentials : Credentials) (s : RunLoop) : Prop :=
  ∃ e s', Completion e ∧ step callback credentials s e = some s' ∧ ahead s'.connected s'.point < ahead s.connected s.point

theorem nearer_advance (hlive : s.halted = false) (hs : s.advance callback = some s')
    (hless : ahead s'.connected s'.point < ahead s.connected s.point) : Nearer callback credentials s :=
  ⟨.advance, s', trivial, (step_advance hlive).trans hs, hless⟩

theorem nearer_notify (hcallback : ∀ notified, callback notified = none) (hlive : s.halted = false) {t : RunLoop}
    {n : Notification} {next : LoopPoint} {handler : Thrown → LoopPoint}
    (hs : s.advance callback = some (t.notifyState callback n next handler))
    (hless : ahead t.connected next < ahead s.connected s.point) :
    Nearer callback credentials s := by
  refine nearer_advance hlive hs ?_
  rw [notifyState_took hcallback, notifyState_connected]
  exact hless

/-- **The next step** on the way to an accepted connection. -/
theorem Standing.nearer (h : Standing callback s) (hcallback : ∀ notified, callback notified = none)
    (hprintable : ∀ streamId, (credentials.connectMessage streamId).Dumpable) (hrunning : s.running = true)
    (hlive : s.halted = false) (hgoal : ¬ Served s) : Nearer callback credentials s := by
  have hnot : ¬ s.halted = true := by simp [hlive]
  cases hp : s.point with
  | checkRunning =>
    have hs : s.advance callback = some { s with point := .connecting } := by simp [RunLoop.advance, hp, hrunning]
    exact nearer_advance hlive hs (by simp [hp, ahead])
  | connecting =>
    exact nearer_notify hcallback hlive (by rw [RunLoop.advance, hp]) (by simp [hp, ahead])
  | connectError message =>
    exact nearer_notify hcallback hlive (by rw [RunLoop.advance, hp]) (by simp [hp, ahead])
  | connected =>
    exact nearer_notify hcallback hlive (by rw [RunLoop.advance, hp]) (by simp [hp, ahead])
  | authenticating =>
    exact nearer_notify hcallback hlive (by rw [RunLoop.advance, hp]) (by simp [hp, ahead])
  | authFailed reason =>
    exact nearer_notify hcallback hlive (by rw [RunLoop.advance, hp]) (by simp [hp, ahead])
  | authenticated =>
    exact nearer_notify hcallback hlive (by rw [RunLoop.advance, hp]) (by simp [hp, ahead])
  | streamsReady =>
    exact nearer_notify hcallback hlive (by rw [RunLoop.advance, hp]) (by simp [hp, ahead])
  | caught thrown =>
    exact nearer_notify hcallback hlive (by rw [RunLoop.advance, hp]) (by simp [hp, ahead])
  | disconnected =>
    exact nearer_notify hcallback hlive (by rw [RunLoop.advance, hp]) (by simp [hp, ahead])
  | accepted =>
    have hs : s.advance callback = some { s.setConnected true with point := .awaitStreams } := by
      rw [RunLoop.advance, hp]
    exact nearer_advance hlive hs (by simp [hp, ahead, connected, setConnected])
  | checkReconnect =>
    have hs : s.advance callback = some { s with point := .delaying } := by simp [RunLoop.advance, hp, hrunning]
    exact nearer_advance hlive hs (by simp [hp, ahead])
  | checkConnected =>
    -- another coroutine has taken `connected_` down
    have hdown : s.connected = false := by simpa [Served, hp] using hgoal
    have hs : s.advance callback = some { s with point := .disconnected } := by
      simp [RunLoop.advance, hp, hdown]
    exact nearer_advance hlive hs (by simp [hp, ahead])
  | awaitConnect =>
    refine ⟨.connect (.ok none), { s with point := .connected }, trivial, ?_, by simp [hp, ahead]⟩
    rw [RunLoop.step, if_neg hnot, if_pos hp]
  | awaitWrite =>
    refine ⟨.write 0 .unknown true, { s with point := .awaitAnswer }, trivial, ?_, by simp [hp, ahead]⟩
    have hlogs : (credentials.connectMessage 0).Logs s.subscriber.client.logging := fun _ _ => hprintable 0
    rw [RunLoop.step, if_neg hnot, if_pos hp, RunLoop.writeConnect, if_pos hlogs, if_pos rfl]
  | awaitAnswer =>
    refine ⟨.read (.message { messageType := .ok }) .unknown, { s with point := .authenticated }, trivial, ?_,
      by simp [hp, ahead]⟩
    rw [RunLoop.step, if_neg hnot, if_pos hp, RunLoop.answer]
    rfl
  | awaitStreams =>
    have hdown : s.connected = false := by simpa [Served, hp] using hgoal
    have hs : RunLoop.step callback credentials s (.initializeStreams (fun _ => { streamId := 0 }) .unknown) =
        some { s with
          subscriber := (s.subscriber.initializeStreams fun _ => { streamId := 0 }).1
          point := if (s.subscriber.initializeStreams fun _ => { streamId := 0 }).2 then .streamsReady
            else .caught .unknown } := by
      rw [RunLoop.step, if_neg hnot, if_pos hp]
    refine ⟨.initializeStreams (fun _ => { streamId := 0 }) .unknown, _, trivial, hs, ?_⟩
    rw [hp, hdown]
    dsimp only
    split_ifs <;> simp [ahead]
  | awaitMessage =>
    refine ⟨.read .nullopt .unknown, { s with point := .disconnected }, trivial, ?_, by simp [hp, ahead]⟩
    rw [RunLoop.step, if_neg hnot, if_neg (by simp [hp]), if_pos hp, RunLoop.readMessage]
    rfl
  | delaying =>
    refine ⟨.wake, { s with point := .checkRunning, delays := s.delays + 1 }, trivial, ?_, by simp [hp, ahead]⟩
    rw [RunLoop.step, if_neg hnot, if_pos hp]
  | returned =>
    rw [h.returned hp] at hrunning
    simp at hrunning
  | escaped =>
    have hplace := h.place
    rw [hp] at hplace
    obtain ⟨state, thrown, -, hthrew, -⟩ := hplace
    rw [hcallback] at hthrew
    simp at hthrew

theorem dumpable_connectMessage {credentials : Credentials} (husername : Utf8.valid credentials.username = true)
    (hdevice : Utf8.valid credentials.deviceId = true) (hpassword : Utf8.valid credentials.devicePassword = true)
    (streamId : UInt16) : (credentials.connectMessage streamId).Dumpable := by
  obtain ⟨hresource, hparameters, -⟩ := IotmpMessage.dumpable_withStreamId streamId .connect
  refine ⟨?_, ?_, ?_⟩
  · rw [Credentials.connectMessage, IotmpMessage.get_setField, if_neg (by decide)]
    exact hresource
  · rw [Credentials.connectMessage, IotmpMessage.get_setField, if_neg (by decide)]
    exact hparameters
  · rw [Credentials.connectMessage, IotmpMessage.get_setField, if_pos rfl]
    rw [IotmpMessage.dumpedPayload, Json.Printable, Json.every_array]
    · simp [Json.every, Json.printableNode, husername, hdevice, hpassword]
    · simp

/-- **Reconnection.** With credentials that are text and a callback that does not throw, whatever has happened to a
client that is running, the loop's own steps and what it waits for can bring it to a connection that the server has
accepted and that is up. -/
theorem reconnects (credentials : Credentials) (husername : Utf8.valid credentials.username = true)
    (hdevice : Utf8.valid credentials.deviceId = true) (hpassword : Utf8.valid credentials.devicePassword = true)
    (subscriber : Subscriber) (events : List LoopEvent)
    (hrunning : (run (fun _ => none) credentials (start subscriber) events).running = true) :
    ∃ more, (∀ e ∈ more, Completion e) ∧
      let s := run (fun _ => none) credentials (start subscriber) (events ++ more)
      Served s ∧ Up s.notified := by
  have hprintable := dumpable_connectMessage husername hdevice hpassword
  have hkeep : ∀ s, s.halted = false ∧ s.running = true ∧ Standing (fun _ => none) s → ¬ (Served s ∧ Up s.notified) →
      ∃ e s', Completion e ∧ step (fun _ => none) credentials s e = some s' ∧
        (s'.halted = false ∧ s'.running = true ∧ Standing (fun _ => none) s') ∧
          ahead s'.connected s'.point < ahead s.connected s.point := by
    rintro s ⟨hlive, hrun, h⟩ hgoal
    have hserved : ¬ Served s := fun hs => hgoal ⟨hs, h.up hs.1⟩
    obtain ⟨e, s', he, hstep, hless⟩ := h.nearer (fun _ => rfl) hprintable hrun hlive hserved
    obtain ⟨hrun', -⟩ := kept_running he hstep
    obtain ⟨hlive', h'⟩ := (h.step hlive e hstep).standing (hrun'.trans hrun)
    exact ⟨e, s', he, hstep, ⟨hlive', hrun'.trans hrun, h'⟩, hless⟩
  have hfits : Fits (fun _ => none) (run (fun _ => none) credentials (start subscriber) events) := fits_run subscriber events
  obtain ⟨hlive, h⟩ := hfits.standing hrunning
  obtain ⟨more, hmore, hserved⟩ :=
    Guarded.reaches _ _ (fun s : RunLoop => ahead s.connected s.point) hkeep _ (And.intro hlive ⟨hrunning, h⟩)
  refine ⟨more, hmore, ?_⟩
  have happend : run (fun _ => none) credentials (start subscriber) (events ++ more) =
      run (fun _ => none) credentials (run (fun _ => none) credentials (start subscriber) events) more := Run.run_append ..
  intro s
  rw [show s = _ from happend]
  exact hserved

/-- a client that the server has refused once -/
def refused : List LoopEvent :=
  [.advance, .advance, .connect (.ok none), .advance, .advance, .write 7 .unknown true,
    .read (.message { messageType := .error }) .unknown]

theorem reconnects_refused :
    (run (fun _ => none) guest (start { client := {} }) refused).point = .authFailed [] ∧
      ∃ more, Served (run (fun _ => none) guest (start { client := {} }) (refused ++ more)) := by
  obtain ⟨more, -, hserved, -⟩ := reconnects guest (by decide) (by decide) (by decide) { client := {} } refused (by rfl)
  exact ⟨by rfl, more, hserved⟩

/-! ## Attempts -/

/-- how often CONNECTING was notified -/
def attempts (s : RunLoop) : ℕ := s.notified.countP fun n => n.state = .connecting

/-- how often `delay` has come to its end -/
def pauses (s : RunLoop) : ℕ := s.delays + s.cutShort

/-- what a step does to the number of attempts -/
inductive Pace (s s' : RunLoop) : Prop
  | attempt (hpoint : s.point = .connecting) (hattempts : s'.attempts = s.attempts + 1) (hpauses : s'.pauses = s.pauses)
      (hrunning : s'.running = s.running) (hne : s'.point ≠ .connecting ∧ s'.point ≠ .checkRunning)
  | enter (hpoint : s.point = .checkRunning) (hup : s.running = true) (hattempts : s'.attempts = s.attempts)
      (hpauses : s'.pauses = s.pauses) (hrunning : s'.running = s.running) (hne : s'.point ≠ .checkRunning)
  | finish (hpoint : s.point = .checkReconnect) (hdown : s.running = false) (hattempts : s'.attempts = s.attempts)
      (hpauses : s'.pauses = s.pauses) (hrunning : s'.running = s.running) (hne : s'.point ≠ .connecting)
  | wake (hattempts : s'.attempts = s.attempts) (hpauses : s'.pauses = s.pauses + 1)
      (hrunning : s'.running = s.running) (hne : s'.point ≠ .connecting)
  | stay (hattempts : s'.attempts = s.attempts) (hpauses : s'.pauses = s.pauses) (hpoint : s'.point = s.point)
      (hrunning : s'.running = true → s.running = true)
  | other (hattempts : s'.attempts = s.attempts) (hpauses : s'.pauses = s.pauses)
      (hrunning : s'.running = s.running) (hne : s'.point ≠ .connecting ∧ s'.point ≠ .checkRunning)

theorem attempts_notifyState (n : Notification) (next : LoopPoint) (handler : Thrown → LoopPoint) :
    (s.notifyState callback n next handler).attempts = s.attempts + if n.state = .connecting then 1 else 0 := by
  simp only [attempts, notifyState_notified, List.countP_append, List.countP_singleton, decide_eq_true_eq]

/-- after a notification the loop stands at neither of two points if it does not go to them -/
theorem notifyState_ne {n : Notification} {next point : LoopPoint} {handler : Thrown → LoopPoint}
    (hnext : next ≠ point) (hhandler : ∀ thrown, handler thrown ≠ point) :
    (s.notifyState callback n next handler).point ≠ point := by
  rcases notifyState_cases callback s n next handler with ⟨-, hpoint⟩ | ⟨thrown, -, hpoint⟩
  · rw [hpoint]
    exact hnext
  · rw [hpoint]
    exact hhandler thrown

theorem pace_notify {n : Notification} {next : LoopPoint} {handler : Thrown → LoopPoint}
    (hn : n.state ≠ .connecting) (hconnecting : next ≠ .connecting ∧ ∀ thrown, handler thrown ≠ .connecting)
    (hcheck : next ≠ .checkRunning ∧ ∀ thrown, handler thrown ≠ .checkRunning) :
    Pace s (s.notifyState callback n next handler) := by
  refine .other ?_ rfl rfl ⟨notifyState_ne hconnecting.1 hconnecting.2, notifyState_ne hcheck.1 hcheck.2⟩
  rw [attempts_notifyState, if_neg hn, Nat.add_zero]

theorem pace_advance (hs : s.advance callback = some s') : Pace s s' := by
  cases hp : s.point with
  | checkRunning =>
    simp only [RunLoop.advance, hp, Option.some.injEq] at hs
    subst hs
    split_ifs with hr
    · exact .enter hp hr rfl rfl rfl (by simp)
    · exact .other rfl rfl rfl (by simp)
  | connecting =>
    simp only [RunLoop.advance, hp, Option.some.injEq] at hs
    subst hs
    refine .attempt hp ?_ rfl rfl ⟨notifyState_ne (by simp) (by simp), notifyState_ne (by simp) (by simp)⟩
    rw [attempts_notifyState, if_pos rfl]
  | disconnected =>
    simp only [RunLoop.advance, hp, Option.some.injEq] at hs
    subst hs
    refine .other ?_ rfl rfl
      ⟨notifyState_ne (by simp) (by simp [uncaught]), notifyState_ne (by simp) (by simp [uncaught])⟩
    rw [attempts_notifyState, if_neg (by simp)]
    rfl
  | caught thrown =>
    simp only [RunLoop.advance, hp, Option.some.injEq] at hs
    subst hs
    exact pace_notify (by simp) (by simp [uncaught]) (by simp [uncaught])
  | connectError | connected | authenticating | authFailed | authenticated | streamsReady =>
    simp only [RunLoop.advance, hp, Option.some.injEq] at hs
    subst hs
    exact pace_notify (by simp) (by simp) (by simp)
  | accepted =>
    simp only [RunLoop.advance, hp, Option.some.injEq] at hs
    subst hs
    exact .other rfl rfl rfl (by simp)
  | checkConnected =>
    simp only [RunLoop.advance, hp, Option.some.injEq] at hs
    subst hs
    refine .other rfl rfl rfl ?_
    split_ifs <;> simp
  | checkReconnect =>
    simp only [RunLoop.advance, hp, Option.some.injEq] at hs
    subst hs
    split_ifs with hr
    · exact .other rfl rfl rfl (by simp)
    · exact .finish hp (by simpa using hr) rfl rfl rfl (by simp)
  | awaitConnect | awaitWrite | awaitAnswer | awaitStreams | awaitMessage | delaying | returned | escaped =>
    simp [RunLoop.advance, hp] at hs

theorem pace_writeConnect (streamId : UInt16) (thrown : Thrown) (written : Bool) :
    Pace s (s.writeConnect credentials streamId thrown written) := by
  rw [RunLoop.writeConnect]
  split_ifs <;> exact .other rfl rfl rfl (by simp)

theorem pace_answer (outcome : ReadOutcome) (thrown : Thrown) : Pace s (s.answer outcome thrown) := by
  rw [RunLoop.answer]
  split <;> exact .other rfl rfl rfl (by simp)

theorem pace_readMessage (outcome : ReadOutcome) (thrown : Thrown) : Pace s (s.readMessage outcome thrown) := by
  rw [RunLoop.readMessage]
  split <;> exact .other rfl rfl rfl (by simp)

theorem pace_step {e : LoopEvent} (hs : step callback credentials s e = some s') : Pace s s' := by
  rw [RunLoop.step.eq_def, if_neg (by simp [live_of_step hs])] at hs
  cases e with
  | advance => exact pace_advance hs
  | connect result =>
    dsimp only at hs
    split_ifs at hs
    rcases result with thrown | _ | message <;> cases hs <;> exact .other rfl rfl rfl (by simp)
  | write streamId thrown written =>
    dsimp only at hs
    split_ifs at hs
    cases hs
    exact pace_writeConnect streamId thrown written
  | read outcome thrown =>
    dsimp only at hs
    split_ifs at hs <;> cases hs
    · exact pace_answer outcome thrown
    · exact pace_readMessage outcome thrown
  | initializeStreams script thrown =>
    dsimp only at hs
    split_ifs at hs <;> cases hs <;> exact .other rfl rfl rfl (by simp)
  | wake =>
    dsimp only at hs
    split_ifs at hs
    cases hs
    exact .wake rfl (by simp only [pauses]; omega) rfl (by simp)
  | delayThrows =>
    dsimp only at hs
    split_ifs at hs
    cases hs
    exact .wake rfl (by simp only [pauses]; omega) rfl (by simp)
  | elsewhere subscriber =>
    dsimp only at hs
    split_ifs at hs
    cases hs
    exact .stay rfl rfl rfl id
  | stop =>
    dsimp only at hs
    split_ifs at hs
    cases hs
    exact .stay rfl rfl rfl (by simp)
  | stopped =>
    dsimp only at hs
    split_ifs at hs
    cases hs
    refine .stay ?_ rfl rfl id
    simp [attempts]

/-- a delay has come to its end before each attempt but the first -/
structure Paced (s : RunLoop) : Prop where
  attempts : s.attempts ≤ s.pauses + 1
  connecting : s.point = .connecting → s.attempts ≤ s.pauses
  checkRunning : s.point = .checkRunning → s.running = true → s.attempts ≤ s.pauses

theorem Paced.step (h : Paced s) {e : LoopEvent} (hs : step callback credentials s e = some s') : Paced s' := by
  obtain ⟨hattempts, hconnecting, hcheck⟩ := h
  rcases pace_step hs with ⟨hpoint, ha, hd, hr, hne⟩ | ⟨hpoint, hup, ha, hd, hr, hne⟩ | ⟨hpoint, hdown, ha, hd, hr, hne⟩ |
    ⟨ha, hd, hr, hne⟩ | ⟨ha, hd, hpoint, hr⟩ | ⟨ha, hd, hr, hne⟩
  · have hless := hconnecting hpoint
    exact ⟨by omega, fun hp => absurd hp hne.1, fun hp => absurd hp hne.2⟩
  · have hless := hcheck hpoint hup
    exact ⟨by omega, fun _ => by omega, fun hp => absurd hp hne⟩
  · refine ⟨by omega, fun hp => absurd hp hne, fun _ hup => ?_⟩
    rw [hr, hdown] at hup
    simp at hup
  · exact ⟨by omega, fun hp => absurd hp hne, fun _ _ => by omega⟩
  · refine ⟨by omega, fun hp => ?_, fun hp hup => ?_⟩
    · have hless := hconnecting (hpoint ▸ hp)
      omega
    · have hless := hcheck (hpoint ▸ hp) (hr hup)
      omega
  · exact ⟨by omega, fun hp => absurd hp hne.1, fun hp => absurd hp hne.2⟩

/-- **Pauses.** In no run does the client attempt to connect more often than one time more than it has waited out
`RECONNECT_DELAY` or had the timer of the wait throw, however fast connections fail and whatever the callback does. -/
theorem attempts_delayed (callback : List Notification → Option Thrown) (credentials : Credentials)
    (subscriber : Subscriber) (events : List LoopEvent) :
    let s := run callback credentials (start subscriber) events
    s.attempts ≤ s.delays + s.cutShort + 1 := by
  intro s
  have hstart : Paced (start subscriber) := by
    refine ⟨?_, ?_, fun _ _ => ?_⟩
    · simp [attempts, start]
    · simp [start]
    · simp [attempts, start]
  have hpaced : Paced s := Guarded.always (fun s e s' h hs => h.step hs) _ events hstart
  exact hpaced.attempts

/-! ## stop() -/

/-- `running_` is down, and the attempt that is about to begin is counted -/
def Stopping (n : ℕ) (s : RunLoop) : Prop :=
  s.running = false ∧ (s.attempts + if s.point = .connecting then 1 else 0) ≤ n

theorem Stopping.step {n : ℕ} (h : Stopping n s) {e : LoopEvent} (hs : step callback credentials s e = some s') :
    Stopping n s' := by
  obtain ⟨hdown, hless⟩ := h
  rcases pace_step hs with ⟨hpoint, ha, hd, hr, hne⟩ | ⟨hpoint, hup, ha, hd, hr, hne⟩ | ⟨hpoint, -, ha, hd, hr, hne⟩ |
    ⟨ha, hd, hr, hne⟩ | ⟨ha, hd, hpoint, hr⟩ | ⟨ha, hd, hr, hne⟩
  · rw [if_pos hpoint] at hless
    refine ⟨hr.trans hdown, ?_⟩
    rw [if_neg hne.1]
    omega
  · rw [hdown] at hup
    simp at hup
  · refine ⟨hr.trans hdown, ?_⟩
    rw [if_neg hne]
    omega
  · refine ⟨hr.trans hdown, ?_⟩
    rw [if_neg hne]
    omega
  · refine ⟨?_, by rw [ha, hpoint]; exact hless⟩
    rcases hup : s'.running
    · rfl
    · rw [hr hup] at hdown
      simp at hdown
  · refine ⟨hr.trans hdown, ?_⟩
    rw [if_neg hne.1]
    omega

/-- how many steps are between a point and the end of the loop, when what it waits for fails -/
def left : LoopPoint → ℕ
  | .returned | .escaped => 0
  | .checkRunning => 1
  | .checkReconnect | .delaying => 2
  | .disconnected => 3
  | .caught _ | .checkConnected | .awaitMessage => 4
  | .connectError _ | .authFailed _ | .streamsReady => 5
  | .awaitConnect | .awaitWrite | .awaitAnswer | .awaitStreams => 6
  | .connecting | .authenticating | .accepted => 7
  | .connected | .authenticated => 8

/-- some step of the loop brings its end nearer -/
def Winds (callback : List Notification → Option Thrown) (credentials : Credentials) (s : RunLoop) : Prop :=
  ∃ e s', Completion e ∧ step callback credentials s e = some s' ∧ left s'.point < left s.point

theorem winds_advance (hlive : s.halted = false) (hs : s.advance callback = some s')
    (hless : left s'.point < left s.point) : Winds callback credentials s :=
  ⟨.advance, s', trivial, (step_advance hlive).trans hs, hless⟩

theorem winds_notify (hlive : s.halted = false) {t : RunLoop} {n : Notification} {next : LoopPoint}
    {handler : Thrown → LoopPoint} (hs : s.advance callback = some (t.notifyState callback n next handler))
    (hnext : left next < left s.point) (hhandler : ∀ thrown, left (handler thrown) < left s.point) :
    Winds callback credentials s := by
  refine winds_advance hlive hs ?_
  rcases notifyState_cases callback t n next handler with ⟨-, hpoint⟩ | ⟨thrown, -, hpoint⟩
  · rw [hpoint]
    exact hnext
  · rw [hpoint]
    exact hhandler thrown

/-- **The next step** towards the end, once `running_` is down. -/
theorem winds (hdown : s.running = false) (hlive : s.halted = false)
    (hgoal : ¬ (s.point = .returned ∨ s.point = .escaped)) : Winds callback credentials s := by
  have hnot : ¬ s.halted = true := by simp [hlive]
  cases hp : s.point with
  | checkRunning =>
    have hs : s.advance callback = some { s with point := .returned } := by simp [RunLoop.advance, hp, hdown]
    exact winds_advance hlive hs (by simp [hp, left])
  | checkConnected =>
    have hs : s.advance callback = some { s with point := .disconnected } := by simp [RunLoop.advance, hp, hdown]
    exact winds_advance hlive hs (by simp [hp, left])
  | checkReconnect =>
    have hs : s.advance callback = some { s with point := .checkRunning } := by simp [RunLoop.advance, hp, hdown]
    exact winds_advance hlive hs (by simp [hp, left])
  | accepted =>
    have hs : s.advance callback = some { s.setConnected true with point := .awaitStreams } := by rw [RunLoop.advance, hp]
    exact winds_advance hlive hs (by simp [hp, left])
  | connecting =>
    exact winds_notify hlive (by rw [RunLoop.advance, hp]) (by simp [hp, left]) (by simp [hp, left])
  | connectError message =>
    exact winds_notify hlive (by rw [RunLoop.advance, hp]) (by simp [hp, left]) (by simp [hp, left])
  | connected =>
    exact winds_notify hlive (by rw [RunLoop.advance, hp]) (by simp [hp, left]) (by simp [hp, left])
  | authenticating =>
    exact winds_notify hlive (by rw [RunLoop.advance, hp]) (by simp [hp, left]) (by simp [hp, left])
  | authFailed reason =>
    exact winds_notify hlive (by rw [RunLoop.advance, hp]) (by simp [hp, left]) (by simp [hp, left])
  | authenticated =>
    exact winds_notify hlive (by rw [RunLoop.advance, hp]) (by simp [hp, left]) (by simp [hp, left])
  | streamsReady =>
    exact winds_notify hlive (by rw [RunLoop.advance, hp]) (by simp [hp, left]) (by simp [hp, left])
  | caught thrown =>
    exact winds_notify hlive (by rw [RunLoop.advance, hp]) (by simp [hp, left]) (by simp [hp, left, uncaught])
  | disconnected =>
    exact winds_notify hlive (by rw [RunLoop.advance, hp]) (by simp [hp, left]) (by simp [hp, left, uncaught])
  | awaitConnect =>
    refine ⟨.connect (.ok (some [])), { s with point := .connectError [] }, trivial, ?_, by simp [hp, left]⟩
    rw [RunLoop.step, if_neg hnot, if_pos hp]
  | awaitWrite =>
    refine ⟨.write 0 .unknown false, s.writeConnect credentials 0 .unknown false, trivial, ?_, ?_⟩
    · rw [RunLoop.step, if_neg hnot, if_pos hp]
    · rw [hp, RunLoop.writeConnect, if_neg (by simp : ¬ false = true)]
      split_ifs <;> simp [left]
  | awaitAnswer =>
    refine ⟨.read .nullopt .unknown, { s with point := .authFailed (text "io_error") }, trivial, ?_, by simp [hp, left]⟩
    rw [RunLoop.step, if_neg hnot, if_pos hp, RunLoop.answer]
    rfl
  | awaitStreams =>
    have hs : RunLoop.step callback credentials s (.initializeStreams (fun _ => { streamId := 0 }) .unknown) =
        some { s with
          subscriber := (s.subscriber.initializeStreams fun _ => { streamId := 0 }).1
          point := if (s.subscriber.initializeStreams fun _ => { streamId := 0 }).2 then .streamsReady
            else .caught .unknown } := by
      rw [RunLoop.step, if_neg hnot, if_pos hp]
    refine ⟨.initializeStreams (fun _ => { streamId := 0 }) .unknown, _, trivial, hs, ?_⟩
    rw [hp]
    dsimp only
    split_ifs <;> simp [left]
  | awaitMessage =>
    refine ⟨.read .nullopt .unknown, { s with point := .disconnected }, trivial, ?_, by simp [hp, left]⟩
    rw [RunLoop.step, if_neg hnot, if_neg (by simp [hp]), if_pos hp, RunLoop.readMessage]
    rfl
  | delaying =>
    refine ⟨.wake, { s with point := .checkRunning, delays := s.delays + 1 }, trivial, ?_, by simp [hp, left]⟩
    rw [RunLoop.step, if_neg hnot, if_pos hp]
  | returned => exact absurd (.inl hp) hgoal
  | escaped => exact absurd (.inr hp) hgoal

/-- **stop().** Once `running_` is down, wherever the loop stands, it attempts to connect at most the once it was about
to; and until the pool is stopped, its own steps and what it waits for can end it, whatever the callback does. -/
theorem stop_returns (callback : List Notification → Option Thrown) (credentials : Credentials) (s : RunLoop)
    (hdown : s.running = false) (events : List LoopEvent) :
    let t := run callback credentials s events
    (t.attempts ≤ s.attempts + if s.point = .connecting then 1 else 0) ∧
      (t.halted = false → ∃ more, (∀ e ∈ more, Completion e) ∧
        ((run callback credentials t more).point = .returned ∨ (run callback credentials t more).point = .escaped)) := by
  intro t
  have hstopping : Stopping (s.attempts + if s.point = .connecting then 1 else 0) t :=
    Guarded.always (fun s e s' h hs => h.step hs) _ events ⟨hdown, le_refl _⟩
  refine ⟨le_trans (Nat.le_add_right _ _) hstopping.2, fun hlive => ?_⟩
  have hkeep : ∀ s : RunLoop, s.halted = false ∧ s.running = false → ¬ (s.point = .returned ∨ s.point = .escaped) →
      ∃ e s', Completion e ∧ step callback credentials s e = some s' ∧ (s'.halted = false ∧ s'.running = false) ∧
        left s'.point < left s.point := by
    rintro s ⟨hlive, hdown⟩ hgoal
    have hwinds : Winds callback credentials s := winds hdown hlive hgoal
    obtain ⟨e, s', he, hstep, hless⟩ := hwinds
    obtain ⟨hrun, hhalt⟩ := kept_running he hstep
    exact ⟨e, s', he, hstep, ⟨hhalt.trans hlive, hrun.trans hdown⟩, hless⟩
  exact Guarded.reaches _ _ (fun s : RunLoop => left s.point) hkeep t (And.intro hlive hstopping.1)

/-- the client stopped after the server has refused it -/
def refusedThenStopped : RunLoop := run (fun _ => none) guest (start { client := {} }) (refused ++ [.stop])

theorem stop_returns_refused :
    refusedThenStopped.attempts = 1 ∧ ∃ more, (run (fun _ => none) guest refusedThenStopped more).point = .returned ∨
      (run (fun _ => none) guest refusedThenStopped more).point = .escaped := by
  obtain ⟨-, hend⟩ := stop_returns (fun _ => none) guest refusedThenStopped (by rfl) []
  obtain ⟨more, -, hmore⟩ := hend (by rfl)
  exact ⟨by rfl, more, hmore⟩

end RunLoop

end Iotmp
