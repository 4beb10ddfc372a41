/-
What the state callback is told, in every run of `run_loop`.

- `Follows`: which notification comes next, by the last one and whether the callback threw on it.
- `InOrder`: every notification is one that may come next.
- `Standing`: what the loop has notified fits the point it stands at; the invariant of every step.
- `notified_in_order`: whatever the callback does, whatever the connections meet, and whenever the client is stopped,
  the notifications are in order, and `connected_` is up only between AUTHENTICATED and DISCONNECTED.
-/
import Mathlib.Tactic
import Iotmp.Client.RunLoop

namespace Iotmp

namespace RunLoop

variable {callback : List Notification → Option Thrown} {credentials : Credentials} {s s' : RunLoop}

/-! ## The order -/

/-- what may be notified after a state, which the callback took or threw on -/
def Follows : ClientState → Option Thrown → Notification → Prop
  | a, some thrown, b => a ≠ .disconnected ∧ b = ⟨.connectionError, thrown.reason⟩
  | .connecting, none, b => b = ⟨.connected, []⟩ ∨ b.state = .connectionError
  | .connected, none, b => b = ⟨.authenticating, []⟩
  | .authenticating, none, b =>
    b = ⟨.authenticated, []⟩ ∨ b = ⟨.authFailed, []⟩ ∨ b = ⟨.authFailed, text "io_error"⟩ ∨ b.state = .connectionError
  | .authenticated, none, b => b = ⟨.streamsReady, []⟩ ∨ b.state = .connectionError
  | .streamsReady, none, b => b = ⟨.disconnected, []⟩ ∨ b.state = .connectionError
  | .authFailed, none, b => b = ⟨.disconnected, []⟩
  | .connectionError, none, b => b = ⟨.disconnected, []⟩
  | .disconnected, none, b => b = ⟨.connecting, []⟩

/-- `b` may be notified next -/
def Next (callback : List Notification → Option Thrown) (history : List Notification) (b : Notification) : Prop :=
  match history.getLast? with
  | none => b = ⟨.connecting, []⟩
  | some a => Follows a.state (callback history) b

def InOrder (callback : List Notification → Option Thrown) (notified : List Notification) : Prop :=
  ∀ history b, history ++ [b] <+: notified → Next callback history b

theorem InOrder.nil : InOrder callback [] := by
  intro history b h
  simp at h

theorem InOrder.concat {notified : List Notification} (h : InOrder callback notified) {n : Notification}
    (hn : Next callback notified n) : InOrder callback (notified ++ [n]) := by
  intro history b hb
  rcases List.prefix_concat_iff.1 hb with heq | hb
  · obtain ⟨rfl, hnb⟩ := List.append_inj' heq rfl
    obtain rfl : b = n := by simpa using hnb
    exact hn
  · exact h history b hb

/-- the connection is up: authenticated, and not notified as disconnected since -/
def Up (notified : List Notification) : Prop :=
  ∃ front rest, notified = front ++ ⟨.authenticated, []⟩ :: rest ∧
    ∀ n ∈ rest, n.state = .streamsReady ∨ n.state = .connectionError

/-! ## What the loop has notified, by its point -/

/-- the callback took the last notification, which was of this state -/
def Last (callback : List Notification → Option Thrown) (notified : List Notification) (state : ClientState) : Prop :=
  callback notified = none ∧ ∃ reason, notified.getLast? = some ⟨state, reason⟩

/-- the callback threw on the last notification -/
def Threw (callback : List Notification → Option Thrown) (notified : List Notification) (state : ClientState)
    (thrown : Thrown) : Prop :=
  callback notified = some thrown ∧ ∃ reason, notified.getLast? = some ⟨state, reason⟩

def Place (callback : List Notification → Option Thrown) (notified : List Notification) : LoopPoint → Prop
  | .checkRunning | .connecting | .returned => notified = [] ∨ Last callback notified .disconnected
  | .awaitConnect | .connectError _ | .connected => Last callback notified .connecting
  | .authenticating => Last callback notified .connected
  | .awaitWrite | .awaitAnswer | .authenticated => Last callback notified .authenticating
  | .authFailed reason => Last callback notified .authenticating ∧ (reason = [] ∨ reason = text "io_error")
  | .accepted | .awaitStreams => callback notified = none ∧ notified.getLast? = some ⟨.authenticated, []⟩
  | .streamsReady => Last callback notified .authenticated
  | .checkConnected | .awaitMessage => Last callback notified .streamsReady
  | .caught thrown =>
    (∃ state, state ≠ .disconnected ∧ Threw callback notified state thrown) ∨
      Last callback notified .connecting ∨ Last callback notified .authenticating ∨
        Last callback notified .authenticated ∨ Last callback notified .streamsReady
  | .disconnected =>
    Last callback notified .connectionError ∨ Last callback notified .authFailed ∨ Last callback notified .streamsReady
  | .checkReconnect | .delaying => Last callback notified .disconnected
  | .escaped =>
    ∃ state thrown, (state = .disconnected ∨ state = .connectionError) ∧ Threw callback notified state thrown

theorem last_concat {notified : List Notification} {n : Notification} (h : callback (notified ++ [n]) = none) :
    Last callback (notified ++ [n]) n.state := ⟨h, n.reason, List.getLast?_concat ..⟩

theorem threw_concat {notified : List Notification} {n : Notification} {thrown : Thrown}
    (h : callback (notified ++ [n]) = some thrown) : Threw callback (notified ++ [n]) n.state thrown :=
  ⟨h, n.reason, List.getLast?_concat ..⟩

theorem Last.next {notified : List Notification} {state : ClientState} (h : Last callback notified state)
    {b : Notification} (hb : Follows state none b) : Next callback notified b := by
  obtain ⟨htook, reason, hlast⟩ := h
  rw [Next, hlast, htook]
  exact hb

theorem Threw.next {notified : List Notification} {state : ClientState} {thrown : Thrown}
    (h : Threw callback notified state thrown) (hstate : state ≠ .disconnected) :
    Next callback notified ⟨.connectionError, thrown.reason⟩ := by
  obtain ⟨hthrew, reason, hlast⟩ := h
  rw [Next, hlast, hthrew]
  exact ⟨hstate, rfl⟩

/-- inside the `try`, a handler gets the exception; behind it nothing does -/
def Handles (handler : Thrown → LoopPoint) (state : ClientState) : Prop :=
  (handler = .caught ∧ state ≠ .disconnected) ∨
    (handler = uncaught ∧ (state = .disconnected ∨ state = .connectionError))

theorem Handles.place {handler : Thrown → LoopPoint} {notified : List Notification} {n : Notification}
    (h : Handles handler n.state) {thrown : Thrown} (hthrew : callback (notified ++ [n]) = some thrown) :
    Place callback (notified ++ [n]) (handler thrown) := by
  rcases h with ⟨rfl, hstate⟩ | ⟨rfl, hstate⟩
  · exact .inl ⟨n.state, hstate, threw_concat hthrew⟩
  · exact ⟨n.state, thrown, hstate, threw_concat hthrew⟩

/-- where `connected_` may be up -/
def Serving : LoopPoint → Prop
  | .awaitStreams | .streamsReady | .checkConnected | .awaitMessage | .caught _ | .disconnected | .escaped => True
  | _ => False

structure Standing (callback : List Notification → Option Thrown) (s : RunLoop) : Prop where
  order : InOrder callback s.notified
  place : Place callback s.notified s.point
  serving : s.connected = true → Serving s.point
  up : s.connected = true → Up s.notified
  returned : s.point = .returned → s.running = false

/-! ## Steps -/

@[simp] theorem notifyState_notified (n : Notification) (next : LoopPoint) (handler : Thrown → LoopPoint) :
    (s.notifyState callback n next handler).notified = s.notified ++ [n] := rfl

@[simp] theorem notifyState_connected (n : Notification) (next : LoopPoint) (handler : Thrown → LoopPoint) :
    (s.notifyState callback n next handler).connected = s.connected := rfl

@[simp] theorem notifyState_running (n : Notification) (next : LoopPoint) (handler : Thrown → LoopPoint) :
    (s.notifyState callback n next handler).running = s.running := rfl

@[simp] theorem notifyState_delays (n : Notification) (next : LoopPoint) (handler : Thrown → LoopPoint) :
    (s.notifyState callback n next handler).delays = s.delays := rfl

@[simp] theorem notifyState_halted (n : Notification) (next : LoopPoint) (handler : Thrown → LoopPoint) :
    (s.notifyState callback n next handler).halted = s.halted := rfl

@[simp] theorem setConnected_connected (b : Bool) : (s.setConnected b).connected = b := rfl

/-- the loop is at the next point or at the handler's -/
theorem notifyState_cases (callback : List Notification → Option Thrown) (s : RunLoop) (n : Notification)
    (next : LoopPoint) (handler : Thrown → LoopPoint) :
    (callback (s.notified ++ [n]) = none ∧ (s.notifyState callback n next handler).point = next) ∨
      ∃ thrown, callback (s.notified ++ [n]) = some thrown ∧
        (s.notifyState callback n next handler).point = handler thrown := by
  rcases h : callback (s.notified ++ [n]) with _ | thrown
  · exact .inl ⟨rfl, by simp only [notifyState, h]⟩
  · exact .inr ⟨thrown, rfl, by simp only [notifyState, h]⟩

theorem up_concat {notified : List Notification} (h : Up notified) {n : Notification}
    (hn : n.state = .streamsReady ∨ n.state = .connectionError) : Up (notified ++ [n]) := by
  obtain ⟨front, rest, rfl, hrest⟩ := h
  refine ⟨front, rest ++ [n], by simp, ?_⟩
  intro m hm
  rcases List.mem_append.1 hm with hm | hm
  · exact hrest m hm
  · rw [List.mem_singleton.1 hm]
    exact hn

theorem Handles.serving {handler : Thrown → LoopPoint} {state : ClientState} (h : Handles handler state)
    (thrown : Thrown) : Serving (handler thrown) ∧ handler thrown ≠ .returned := by
  rcases h with ⟨rfl, -⟩ | ⟨rfl, -⟩
  · exact ⟨trivial, by simp⟩
  · exact ⟨trivial, by simp [uncaught]⟩

theorem up_of_getLast? {notified : List Notification} (h : notified.getLast? = some ⟨.authenticated, []⟩) :
    Up notified := by
  obtain ⟨front, hfront⟩ := List.getLast?_eq_some_iff.1 h
  exact ⟨front, [], hfront, by simp⟩

/-- **A notification** that may come next, while the connection is not up or of a state that leaves it up. -/
theorem Standing.notify (h : Standing callback s) {n : Notification} {next : LoopPoint} {handler : Thrown → LoopPoint}
    (hhandler : Handles handler n.state) (hnext : Next callback s.notified n)
    (hplace : callback (s.notified ++ [n]) = none → Place callback (s.notified ++ [n]) next)
    (hup : s.connected = true → (n.state = .streamsReady ∨ n.state = .connectionError) ∧ Serving next)
    (hreturned : next ≠ .returned) : Standing callback (s.notifyState callback n next handler) := by
  have hconnected : s.connected = true → Up (s.notified ++ [n]) := fun hc => up_concat (h.up hc) (hup hc).1
  rcases notifyState_cases callback s n next handler with ⟨htook, hpoint⟩ | ⟨thrown, hthrew, hpoint⟩
  · refine ⟨h.order.concat hnext, ?_, fun hc => ?_, hconnected, fun hr => absurd (hpoint ▸ hr) hreturned⟩
    · rw [hpoint]
      exact hplace htook
    · rw [hpoint]
      exact (hup hc).2
  · obtain ⟨hserving, hne⟩ := hhandler.serving thrown
    refine ⟨h.order.concat hnext, ?_, fun _ => ?_, hconnected, fun hr => absurd (hpoint ▸ hr) hne⟩
    · rw [hpoint]
      exact hhandler.place hthrew
    · rw [hpoint]
      exact hserving

/-- the loop goes on without a notification -/
theorem Standing.goTo (h : Standing callback s) {point : LoopPoint} (hplace : Place callback s.notified point)
    (hserving : s.connected = true → Serving point) (hreturned : point = .returned → s.running = false) :
    Standing callback { s with point := point } := ⟨h.order, hplace, hserving, h.up, hreturned⟩

theorem Standing.setConnected_false (h : Standing callback s) : Standing callback (s.setConnected false) :=
  ⟨h.order, h.place, fun hc => absurd hc (by simp), fun hc => absurd hc (by simp), h.returned⟩

theorem Standing.advance (h : Standing callback s) (hs : s.advance callback = some s') : Standing callback s' := by
  have hplace := h.place
  have hserving := h.serving
  cases hp : s.point with
  | checkRunning =>
    rw [hp] at hplace hserving
    simp only [RunLoop.advance, hp, Option.some.injEq] at hs
    subst hs
    split_ifs with hr
    · exact h.goTo hplace (fun hc => (hserving hc).elim) (by simp)
    · exact h.goTo hplace (fun hc => (hserving hc).elim) fun _ => by simpa using hr
  | connecting =>
    rw [hp] at hplace hserving
    simp only [RunLoop.advance, hp, Option.some.injEq] at hs
    subst hs
    refine h.notify (.inl ⟨rfl, by simp⟩) ?_ last_concat (fun hc => (hserving hc).elim) (by simp)
    rcases hplace with hnil | hlast
    · rw [hnil]
      rfl
    · exact hlast.next rfl
  | connectError message =>
    rw [hp] at hplace hserving
    simp only [RunLoop.advance, hp, Option.some.injEq] at hs
    subst hs
    exact h.notify (.inl ⟨rfl, by simp⟩) (hplace.next (.inr rfl)) (fun htook => .inl (last_concat htook))
      (fun hc => (hserving hc).elim) (by simp)
  | connected =>
    rw [hp] at hplace hserving
    simp only [RunLoop.advance, hp, Option.some.injEq] at hs
    subst hs
    exact h.notify (.inl ⟨rfl, by simp⟩) (hplace.next (.inl rfl)) last_concat
      (fun hc => (hserving hc).elim) (by simp)
  | authenticating =>
    rw [hp] at hplace hserving
    simp only [RunLoop.advance, hp, Option.some.injEq] at hs
    subst hs
    exact h.notify (.inl ⟨rfl, by simp⟩) (hplace.next rfl) last_concat
      (fun hc => (hserving hc).elim) (by simp)
  | authFailed reason =>
    rw [hp] at hplace hserving
    simp only [RunLoop.advance, hp, Option.some.injEq] at hs
    subst hs
    obtain ⟨hlast, hreason⟩ := hplace
    refine h.notify (.inl ⟨rfl, by simp⟩) (hlast.next ?_) (fun htook => .inr (.inl (last_concat htook)))
      (fun hc => (hserving hc).elim) (by simp)
    rcases hreason with rfl | rfl
    · exact .inr (.inl rfl)
    · exact .inr (.inr (.inl rfl))
  | authenticated =>
    rw [hp] at hplace hserving
    simp only [RunLoop.advance, hp, Option.some.injEq] at hs
    subst hs
    exact h.notify (.inl ⟨rfl, by simp⟩) (hplace.next (.inl rfl))
      (fun htook => ⟨htook, List.getLast?_concat ..⟩) (fun hc => (hserving hc).elim) (by simp)
  | accepted =>
    rw [hp] at hplace
    simp only [RunLoop.advance, hp, Option.some.injEq] at hs
    subst hs
    exact ⟨h.order, hplace, fun _ => trivial, fun _ => up_of_getLast? hplace.2, by simp⟩
  | streamsReady =>
    rw [hp] at hplace
    simp only [RunLoop.advance, hp, Option.some.injEq] at hs
    subst hs
    exact h.notify (.inl ⟨rfl, by simp⟩) (hplace.next (.inl rfl)) last_concat (fun _ => ⟨.inl rfl, trivial⟩) (by simp)
  | checkConnected =>
    rw [hp] at hplace
    simp only [RunLoop.advance, hp, Option.some.injEq] at hs
    subst hs
    split_ifs with hc
    · exact h.goTo hplace (fun _ => trivial) (by simp)
    · exact h.goTo (.inr (.inr hplace)) (fun _ => trivial) (by simp)
  | caught thrown =>
    rw [hp] at hplace
    simp only [RunLoop.advance, hp, Option.some.injEq] at hs
    subst hs
    refine h.notify (.inr ⟨rfl, .inr rfl⟩) ?_ (fun htook => .inl (last_concat htook)) (fun _ => ⟨.inr rfl, trivial⟩) (by simp)
    rcases hplace with ⟨state, hstate, hthrew⟩ | hlast | hlast | hlast | hlast
    · exact hthrew.next hstate
    · exact hlast.next (.inr rfl)
    · exact hlast.next (.inr (.inr (.inr rfl)))
    · exact hlast.next (.inr rfl)
    · exact hlast.next (.inr rfl)
  | disconnected =>
    rw [hp] at hplace
    simp only [RunLoop.advance, hp, Option.some.injEq] at hs
    subst hs
    refine h.setConnected_false.notify (.inr ⟨rfl, .inl rfl⟩) ?_ last_concat (fun hc => absurd hc (by simp)) (by simp)
    rcases hplace with hlast | hlast | hlast
    · exact hlast.next rfl
    · exact hlast.next rfl
    · exact hlast.next (.inl rfl)
  | checkReconnect =>
    rw [hp] at hplace hserving
    simp only [RunLoop.advance, hp, Option.some.injEq] at hs
    subst hs
    split_ifs with hr
    · exact h.goTo hplace (fun hc => (hserving hc).elim) (by simp)
    · have hreturn : Place callback s.notified .checkRunning := .inr hplace
      exact h.goTo hreturn (fun hc => (hserving hc).elim) (by simp)
  | awaitConnect | awaitWrite | awaitAnswer | awaitStreams | awaitMessage | delaying | returned | escaped =>
    simp [RunLoop.advance, hp] at hs

/-- what the loop waited for has come -/
theorem Standing.resume (h : Standing callback s) {point : LoopPoint} (hplace : Place callback s.notified point)
    (hserving : s.connected = true → Serving point) (hne : point ≠ .returned) :
    Standing callback { s with point := point } := h.goTo hplace hserving fun hr => absurd hr hne

theorem Standing.writeConnect (h : Standing callback s) (hp : s.point = .awaitWrite) (streamId : UInt16)
    (thrown : Thrown) (written : Bool) : Standing callback (s.writeConnect credentials streamId thrown written) := by
  have hplace := h.place
  have hserving := h.serving
  rw [hp] at hplace hserving
  rw [RunLoop.writeConnect]
  split_ifs
  · exact h.resume hplace (fun hc => (hserving hc).elim) (by simp)
  · have hplace' : Place callback s.notified (.authFailed (text "io_error")) := ⟨hplace, .inr rfl⟩
    exact h.setConnected_false.resume hplace' (fun hc => absurd hc (by simp)) (by simp)
  · have hplace' : Place callback s.notified (.caught thrown) := .inr (.inr (.inl hplace))
    exact h.resume hplace' (fun _ => trivial) (by simp)

theorem Standing.answer (h : Standing callback s) (hp : s.point = .awaitAnswer) (outcome : ReadOutcome)
    (thrown : Thrown) : Standing callback (s.answer outcome thrown) := by
  have hplace := h.place
  have hserving := h.serving
  rw [hp] at hplace hserving
  have hfailed : ∀ reason, reason = [] ∨ reason = text "io_error" →
      Standing callback { s with point := .authFailed reason } := by
    intro reason hreason
    have hplace' : Place callback s.notified (.authFailed reason) := ⟨hplace, hreason⟩
    exact h.resume hplace' (fun hc => (hserving hc).elim) (by simp)
  rw [RunLoop.answer]
  rcases consume .authenticate outcome with m | ⟨_ | _, payload⟩ | _ | _
  · exact hfailed _ (.inr rfl)
  · exact hfailed _ (.inl rfl)
  · exact h.resume hplace (fun hc => (hserving hc).elim) (by simp)
  · exact hfailed _ (.inr rfl)
  · have hplace' : Place callback s.notified (.caught thrown) := .inr (.inr (.inl hplace))
    exact h.resume hplace' (fun _ => trivial) (by simp)

theorem Standing.readMessage (h : Standing callback s) (hp : s.point = .awaitMessage) (outcome : ReadOutcome)
    (thrown : Thrown) : Standing callback (s.readMessage outcome thrown) := by
  have hplace := h.place
  rw [hp] at hplace
  have hleft : Standing callback { s with point := .disconnected } := by
    have hplace' : Place callback s.notified .disconnected := .inr (.inr hplace)
    exact h.resume hplace' (fun _ => trivial) (by simp)
  rw [RunLoop.readMessage]
  rcases consume .readLoop outcome with m | ⟨success, payload⟩ | _ | _
  · exact h.resume hplace (fun _ => trivial) (by simp)
  · exact hleft
  · exact hleft
  · have hplace' : Place callback s.notified (.caught thrown) := .inr (.inr (.inr (.inr hplace)))
    exact h.resume hplace' (fun _ => trivial) (by simp)

theorem Standing.connect (h : Standing callback s) (hp : s.point = .awaitConnect) {point : LoopPoint}
    (hpoint : point = .connected ∨ (∃ message, point = .connectError message) ∨ ∃ thrown, point = .caught thrown) :
    Standing callback { s with point := point } := by
  have hplace := h.place
  have hserving := h.serving
  rw [hp] at hplace hserving
  rcases hpoint with rfl | ⟨message, rfl⟩ | ⟨thrown, rfl⟩
  · exact h.resume hplace (fun hc => (hserving hc).elim) (by simp)
  · exact h.resume hplace (fun hc => (hserving hc).elim) (by simp)
  · have hplace' : Place callback s.notified (.caught thrown) := .inr (.inl hplace)
    exact h.resume hplace' (fun _ => trivial) (by simp)

/-- other coroutines and threads do not take part in the cycle -/
theorem Standing.elsewhere (h : Standing callback s) {subscriber : Subscriber}
    (hc : ¬ (subscriber.client.connected && !s.connected) = true) :
    Standing callback { s with subscriber := subscriber } := by
  have hdown : subscriber.client.connected = true → s.connected = true := by
    intro hup
    simpa [hup] using hc
  exact ⟨h.order, h.place, fun hup => h.serving (hdown hup), fun hup => h.up (hdown hup), h.returned⟩

theorem Standing.initializeStreams (h : Standing callback s) (hp : s.point = .awaitStreams) (subscriber : Subscriber)
    (thrown : Thrown) (completed : Bool) :
    Standing callback
      { s with subscriber := subscriber, point := if completed then .streamsReady else .caught thrown } := by
  have hplace := h.place
  rw [hp] at hplace
  have hlast : Last callback s.notified .authenticated := ⟨hplace.1, [], hplace.2⟩
  have hup : Up s.notified := up_of_getLast? hplace.2
  cases completed
  · have hplace' : Place callback s.notified (.caught thrown) := .inr (.inr (.inr (.inl hlast)))
    exact ⟨h.order, hplace', fun _ => trivial, fun _ => hup, by simp⟩
  · exact ⟨h.order, hlast, fun _ => trivial, fun _ => hup, by simp⟩

/-- `stop()` has notified last -/
def Halted (callback : List Notification → Option Thrown) (s : RunLoop) : Prop :=
  s.running = false ∧
    ∃ own, s.notified = own ++ [⟨.disconnected, []⟩] ∧ InOrder callback own ∧ (s.connected = true → Up own)

/-- what a step of the loop itself leaves alone -/
structure Kept (s s' : RunLoop) : Prop where
  running : s'.running = s.running
  delays : s'.delays = s.delays
  halted : s'.halted = s.halted

theorem kept_advance (hs : s.advance callback = some s') : Kept s s' := by
  unfold RunLoop.advance at hs
  split at hs <;> cases hs <;> exact ⟨rfl, rfl, rfl⟩

theorem kept_writeConnect (streamId : UInt16) (thrown : Thrown) (written : Bool) :
    Kept s (s.writeConnect credentials streamId thrown written) := by
  rw [RunLoop.writeConnect]
  split_ifs <;> exact ⟨rfl, rfl, rfl⟩

theorem kept_answer (outcome : ReadOutcome) (thrown : Thrown) : Kept s (s.answer outcome thrown) := by
  rw [RunLoop.answer]
  split <;> exact ⟨rfl, rfl, rfl⟩

theorem kept_readMessage (outcome : ReadOutcome) (thrown : Thrown) : Kept s (s.readMessage outcome thrown) := by
  rw [RunLoop.readMessage]
  split <;> exact ⟨rfl, rfl, rfl⟩

/-- the end of a delay, waited out or not -/
theorem Standing.wakes (h : Standing callback s) (hp : s.point = .delaying) {delays cutShort : ℕ} :
    Standing callback { s with point := .checkRunning, delays := delays, cutShort := cutShort } := by
  have hplace := h.place
  have hserving := h.serving
  rw [hp] at hplace hserving
  have hwoken : Place callback s.notified .checkRunning := .inr hplace
  exact ⟨h.order, hwoken, fun hc => (hserving hc).elim, h.up, by simp⟩

/-- the loop stands where it can, unless `stop()` has ended it -/
def Fits (callback : List Notification → Option Thrown) (s : RunLoop) : Prop :=
  (s.halted = false ∧ Standing callback s) ∨ (s.halted = true ∧ Halted callback s)

/-- **Every step keeps what the loop stands for**, and the end of `stop()` keeps the order. -/
theorem Standing.step (h : Standing callback s) (hlive : s.halted = false) (e : LoopEvent)
    (hs : step callback credentials s e = some s') : Fits callback s' := by
  cases e with
  | advance =>
    rw [RunLoop.step, if_neg (by simp [hlive])] at hs
    exact .inl ⟨(kept_advance hs).halted.trans hlive, h.advance hs⟩
  | connect result =>
    rw [RunLoop.step.eq_def, if_neg (by simp [hlive])] at hs
    dsimp only at hs
    split_ifs at hs with hp
    rcases result with thrown | _ | message <;> cases hs
    · exact .inl ⟨hlive, h.connect hp (.inr (.inr ⟨thrown, rfl⟩))⟩
    · exact .inl ⟨hlive, h.connect hp (.inl rfl)⟩
    · exact .inl ⟨hlive, h.connect hp (.inr (.inl ⟨message, rfl⟩))⟩
  | write streamId thrown written =>
    rw [RunLoop.step, if_neg (by simp [hlive])] at hs
    split_ifs at hs with hp
    cases hs
    exact .inl ⟨(kept_writeConnect streamId thrown written).halted.trans hlive, h.writeConnect hp _ _ _⟩
  | read outcome thrown =>
    rw [RunLoop.step, if_neg (by simp [hlive])] at hs
    split_ifs at hs with hp hp' <;> cases hs
    · exact .inl ⟨(kept_answer outcome thrown).halted.trans hlive, h.answer hp _ _⟩
    · exact .inl ⟨(kept_readMessage outcome thrown).halted.trans hlive, h.readMessage hp' _ _⟩
  | initializeStreams script thrown =>
    rw [RunLoop.step, if_neg (by simp [hlive])] at hs
    split_ifs at hs with hp
    cases hs
    exact .inl ⟨hlive, h.initializeStreams hp _ thrown _⟩
  | wake =>
    rw [RunLoop.step, if_neg (by simp [hlive])] at hs
    split_ifs at hs with hp
    cases hs
    exact .inl ⟨hlive, h.wakes hp⟩
  | delayThrows =>
    rw [RunLoop.step, if_neg (by simp [hlive])] at hs
    split_ifs at hs with hp
    cases hs
    exact .inl ⟨hlive, h.wakes hp⟩
  | elsewhere subscriber =>
    rw [RunLoop.step, if_neg (by simp [hlive])] at hs
    split_ifs at hs with hc
    cases hs
    exact .inl ⟨hlive, h.elsewhere hc⟩
  | stop =>
    rw [RunLoop.step, if_neg (by simp [hlive])] at hs
    split_ifs at hs with hr
    cases hs
    exact .inl ⟨hlive, h.order, h.place, h.serving, h.up, fun _ => rfl⟩
  | stopped =>
    rw [RunLoop.step, if_neg (by simp [hlive])] at hs
    split_ifs at hs with hr
    cases hs
    exact .inr ⟨rfl, by simpa using hr, s.notified, rfl, h.order, h.up⟩

theorem standing_start (subscriber : Subscriber) : Standing callback (start subscriber) :=
  ⟨InOrder.nil, .inl rfl, fun hc => absurd hc (by simp [start, connected]),
    fun hc => absurd hc (by simp [start, connected]), by simp [start]⟩

theorem fits_run (subscriber : Subscriber) (events : List LoopEvent) :
    Fits callback (run callback credentials (start subscriber) events) := by
  have hstep : ∀ s e s', Fits callback s → RunLoop.step callback credentials s e = some s' → Fits callback s' := by
    intro s e s' h hs
    rcases h with ⟨hlive, h⟩ | ⟨hhalted, -⟩
    · exact h.step hlive e hs
    · simp [RunLoop.step, hhalted] at hs
  exact Guarded.always hstep _ events (.inl ⟨rfl, standing_start subscriber⟩)

/-- **Notifications.** In every run, whatever the callback throws, the connections meet and other coroutines do, each
notification of the loop is one that may follow the ones before; `stop()` adds one DISCONNECTED at the end; and
`connected_` is up only after an AUTHENTICATED that no DISCONNECTED has followed yet. -/
theorem notified_in_order (callback : List Notification → Option Thrown) (credentials : Credentials)
    (subscriber : Subscriber) (events : List LoopEvent) :
    let s := run callback credentials (start subscriber) events
    ∃ own, s.notified = own ++ (if s.halted then [⟨.disconnected, []⟩] else []) ∧ InOrder callback own ∧
      (s.connected = true → Up own) := by
  intro s
  have hfits : Fits callback s := fits_run subscriber events
  rcases hfits with ⟨hlive, h⟩ | ⟨hhalted, h⟩
  · refine ⟨s.notified, ?_, h.order, h.up⟩
    rw [if_neg (by simp [hlive]), List.append_nil]
  · obtain ⟨-, own, hown, horder, hup⟩ := h
    refine ⟨own, ?_, horder, hup⟩
    rw [if_pos hhalted]
    exact hown

end RunLoop

end Iotmp
